import Graft.Codec.Basic
import Graft.Config.Basic

/-!
# Configurations in JSON

A configuration is a table of tables.  A table that lacks a key has the default there, and a key
that is not known is a fault; faults are found in the order of the entries.  A table may also be
given as the list of its first values.  A list with more values than keys is refused or cut off, as
`Surplus` says.
-/

namespace Graft

open Splice (AnchorSettings Setting)

/-- What becomes of the values of a list that has more of them than its table has keys. -/
inductive Surplus where
  | refused
  | ignored
  deriving DecidableEq, Repr

/-- A key of a table that describes an `α`, and how its value changes the `α`. -/
structure TableKey (α : Type) where
  key : String
  put : α → Json → Except DecodeFault α

/-- What a table describes, on top of `start`. -/
def Json.asTable {α : Type} (surplus : Surplus) (keys : List (TableKey α)) (start : α) :
    Json → Except DecodeFault α
  | .object members =>
    members.foldlM (fun a (key, v) =>
      match keys.find? fun k => k.key == key with
      | some k => k.put a v
      | none => .error (.unknownKey key (keys.map TableKey.key))) start
  | .array items => do
    let a ← (keys.zip items).foldlM (fun a (k, v) => k.put a v) start
    if surplus = .refused ∧ keys.length < items.length then .error .wrongShape else .ok a
  | _ => .error .wrongShape

namespace Splice.AnchorSettings

def toJson (s : AnchorSettings) : Json :=
  .object (Setting.all.map fun k => (k.key, .string (s.get k)))

def tableKey (k : Setting) : TableKey AnchorSettings where
  key := k.key
  put s v := (s.set · k) <$> v.asText

def decode (surplus : Surplus) : Json → Except DecodeFault AnchorSettings :=
  Json.asTable surplus (Setting.all.map tableKey) {}

end Splice.AnchorSettings

namespace OutputNames

def toJson (o : OutputNames) : Json :=
  .object [("router_file_name", .string o.router), ("listing_file_name", .string o.listing)]

def tableKeys : List (TableKey OutputNames) :=
  [⟨"router_file_name", fun o v => ({ o with router := · }) <$> v.asText⟩,
    ⟨"listing_file_name", fun o v => ({ o with listing := · }) <$> v.asText⟩]

def decode (surplus : Surplus) : Json → Except DecodeFault OutputNames :=
  Json.asTable surplus tableKeys {}

end OutputNames

namespace Config

def toJson (c : Config) : Json :=
  .object [("anchors", c.anchors.toJson), ("output", c.output.toJson),
    ("sanitize_input", .boolean c.sanitizeInput)]

def tableKeys (surplus : Surplus) : List (TableKey Config) :=
  [⟨"anchors", fun c v => ({ c with anchors := · }) <$> AnchorSettings.decode surplus v⟩,
    ⟨"output", fun c v => ({ c with output := · }) <$> OutputNames.decode surplus v⟩,
    ⟨"sanitize_input", fun c v => ({ c with sanitizeInput := · }) <$> v.asBool⟩]

def decode (surplus : Surplus) : Json → Except DecodeFault Config :=
  Json.asTable surplus (tableKeys surplus) {}

end Config

end Graft
