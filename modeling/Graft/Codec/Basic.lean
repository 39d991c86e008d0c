import Graft.Json.Basic

/-!
# Decoding JSON

What the decoders of the library share: faults, scalars, enumerations and structures.  A structure
is an object, whose unknown members are ignored, or the array of its values in the order of its
keys. An absent member reads like `null`, which only a value that may be absent accepts.
-/

namespace Graft

/-- Why a value cannot be decoded. -/
inductive DecodeFault where
  /-- A table has a key that is not among its keys. -/
  | unknownKey (key : String) (expected : List String)
  | wrongShape
  deriving DecidableEq, Repr

namespace DecodeFault

/-- A key in backticks. -/
def shown (key : String) : String := "\x60" ++ key ++ "\x60"

/-- The keys that a table may have, in words. -/
def expectation : List String → String
  | [] => "there are no fields"
  | [a] => "expected " ++ shown a
  | [a, b] => "expected " ++ shown a ++ " or " ++ shown b
  | keys => "expected one of " ++ String.intercalate ", " (keys.map shown)

/-- The text of a fault, where it has one. -/
def message? : DecodeFault → Option String
  | .unknownKey key expected =>
    some ("unknown field " ++ shown key ++ ", " ++ expectation expected)
  | .wrongShape => none

end DecodeFault

namespace Json

def asText : Json → Except DecodeFault Text
  | .string t => .ok t
  | _ => .error .wrongShape

def asBool : Json → Except DecodeFault Bool
  | .boolean b => .ok b
  | _ => .error .wrongShape

/-- A natural number below `2 ^ 64`. -/
def asNat : Json → Except DecodeFault Nat
  | .number (.ofNat n) 0 => if n < Nat.pow 2 64 then .ok n else .error .wrongShape
  | _ => .error .wrongShape

def asList {α : Type} (item : Json → Except DecodeFault α) : Json → Except DecodeFault (List α)
  | .array items => items.mapM item
  | _ => .error .wrongShape

/-- A value that may be `null`. -/
def asOption {α : Type} (value : Json → Except DecodeFault α) : Json → Except DecodeFault (Option α)
  | .null => .ok none
  | v => some <$> value v

def named {α : Type} (all : List α) (key : α → String) (name : Text) : Except DecodeFault α :=
  (all.find? fun a => key a == String.ofList name).elim (.error .wrongShape) .ok

/-- One of several alternatives: its name, or an object with the name for its only key and nothing
under it.  `isUnit` says which values are nothing. -/
def asChoiceBy {α : Type} (isUnit : Json → Bool) (all : List α) (key : α → String) :
    Json → Except DecodeFault α
  | .string t => named all key t
  | .object [(k, v)] => if isUnit v then named all key k.toList else .error .wrongShape
  | _ => .error .wrongShape

def isNull : Json → Bool
  | .null => true
  | _ => false

/-- Whether the value is `null` or an object without members. -/
def isNullOrEmpty : Json → Bool
  | .null | .object [] => true
  | _ => false

def asChoice {α : Type} (all : List α) (key : α → String) : Json → Except DecodeFault α :=
  asChoiceBy isNull all key

/-- The members of a structure with the given keys. -/
def asMembers (keys : List String) : Json → Except DecodeFault (List (String × Json))
  | .object members => .ok members
  | .array items => if items.length = keys.length then .ok (keys.zip items) else .error .wrongShape
  | _ => .error .wrongShape

/-- The member with a key, `null` if there is none. -/
def member (key : String) (members : List (String × Json)) : Json :=
  (members.lookup key).getD .null

end Json

end Graft
