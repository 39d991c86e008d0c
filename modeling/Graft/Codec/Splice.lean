import Graft.Codec.Basic
import Graft.Splice.Anchor

/-!
# Kinds and outcomes in JSON

An outcome is an object that says under `outcome` which one it is, beside the outcome's own members;
or the array of that name and the members' values.
-/

namespace Graft.Splice

def SnippetKind.decode : Json → Except DecodeFault SnippetKind :=
  Json.asChoice SnippetKind.all SnippetKind.key

def TargetRole.decode : Json → Except DecodeFault TargetRole :=
  Json.asChoice [.router, .listing] TargetRole.key

def AnchorKind.decode : Json → Except DecodeFault AnchorKind :=
  Json.asChoice AnchorKind.all AnchorKind.key

namespace Outcome

/-- The names of the outcomes, without what they hold. -/
inductive Tag where
  | spliced
  | nothingNew
  | anchorMissing
  | empty
  deriving DecidableEq, Repr

namespace Tag

def all : List Tag := [.spliced, .nothingNew, .anchorMissing, .empty]

def key : Tag → String
  | .spliced => "spliced"
  | .nothingNew => "nothing_new"
  | .anchorMissing => "anchor_missing"
  | .empty => "empty"

/-- The members of an outcome beside its name. -/
def members : Tag → List String
  | .spliced => ["anchor", "inserted"]
  | .nothingNew => ["anchor"]
  | .anchorMissing | .empty => []

end Tag

def toJson : Outcome → Json
  | .spliced a n =>
    .object [("outcome", .ofString Tag.spliced.key), ("anchor", .ofString a.key),
      ("inserted", .ofNat n)]
  | .nothingNew a =>
    .object [("outcome", .ofString Tag.nothingNew.key), ("anchor", .ofString a.key)]
  | .anchorMissing => .object [("outcome", .ofString Tag.anchorMissing.key)]
  | .empty => .object [("outcome", .ofString Tag.empty.key)]

/-- The shape that a member of an outcome names. -/
def anchorIn (members : List (String × Json)) : Except DecodeFault AnchorKind :=
  Json.asChoiceBy Json.isNullOrEmpty AnchorKind.all AnchorKind.key (Json.member "anchor" members)

def ofMembers (members : List (String × Json)) : Tag → Except DecodeFault Outcome
  | .spliced => do return .spliced (← anchorIn members) (← (Json.member "inserted" members).asNat)
  | .nothingNew => do return .nothingNew (← anchorIn members)
  | .anchorMissing => .ok .anchorMissing
  | .empty => .ok .empty

def tagOf (v : Json) : Except DecodeFault Tag := do
  Json.named Tag.all Tag.key (← v.asText)

def decode : Json → Except DecodeFault Outcome
  | .object members => do ofMembers members (← tagOf (Json.member "outcome" members))
  | .array (name :: values) => do
    let tag ← tagOf name
    ofMembers (← (Json.array values).asMembers tag.members) tag
  | _ => .error .wrongShape

end Outcome

end Graft.Splice
