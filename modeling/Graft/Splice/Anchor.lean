import Graft.Text.Basic
import Graft.Splice.Kind

/-!
# Anchors and strategies

An anchor is a text cut in three: what stands before the anchor's span, the span, and what stands
after it.  A strategy finds the anchor for one kind of snippet and splices into the span;
`Strategy.apply` does both, and reports what came of it.

* `Strategy.apply_nil`: without snippets nothing happens;
* `Strategy.apply_of_findAnchor_eq_none`: a missing anchor leaves the text as it is;
* `Strategy.apply_of_findAnchor_eq_some`: what is spliced at an anchor is the answer.
-/

namespace Graft.Splice

/-- A text cut at an anchor. -/
structure Anchor where
  /-- The shape the anchor was found by. -/
  kind : AnchorKind
  before : Text
  /-- The part that may change; empty for a place between two characters. -/
  span : Text
  after : Text
  /-- The indentation of what is inserted. -/
  indent : Text
  deriving DecidableEq, Repr

namespace Anchor

def text (a : Anchor) : Text := a.before ++ a.span ++ a.after

/-- The text from the anchor on. -/
def rest (a : Anchor) : Text := a.span ++ a.after

/-- A place between two characters. -/
def point (kind : AnchorKind) (before after indent : Text) : Anchor :=
  ⟨kind, before, [], after, indent⟩

/-- The text with a block inserted at the anchor. -/
def insert (a : Anchor) (block : Text) : Text := a.before ++ block ++ a.rest

/-- The text with the span replaced. -/
def replace (a : Anchor) (body : Text) : Text := a.before ++ body ++ a.after

theorem text_eq (a : Anchor) : a.text = a.before ++ a.rest := by
  simp [text, rest]

theorem replace_span (a : Anchor) : a.replace a.span = a.text := rfl

end Anchor

/-- A spliced text and the number of snippets that landed in it. -/
structure Spliced where
  text : Text
  inserted : Nat
  deriving DecidableEq, Repr

/-- What became of the snippets of one kind. -/
inductive Outcome where
  | spliced (anchor : AnchorKind) (inserted : Nat)
  /-- There is an anchor, and every snippet was already there. -/
  | nothingNew (anchor : AnchorKind)
  | anchorMissing
  | empty
  deriving DecidableEq, Repr

namespace Outcome

def isAnchorMissing : Outcome → Bool
  | .anchorMissing => true
  | _ => false

def inserted : Outcome → Nat
  | .spliced _ n => n
  | _ => 0

end Outcome

/-- The answer of a strategy: its name, the text, and what became of the snippets. -/
structure Insertion where
  strategy : String
  text : Text
  outcome : Outcome
  deriving DecidableEq, Repr

/-- A way to splice one kind of snippet into a text. -/
structure Strategy where
  kind : SnippetKind
  name : String
  /-- Cuts a text at the anchor. -/
  findAnchor : Text → Option Anchor
  /-- Splices snippets, in their order, at an anchor. -/
  splice : Anchor → List Text → Spliced

namespace Strategy

/-- Finds the anchor once and splices all snippets there. -/
def apply (s : Strategy) (t : Text) (snippets : List Text) : Insertion :=
  if snippets.isEmpty then ⟨s.name, t, .empty⟩
  else
    match s.findAnchor t with
    | none => ⟨s.name, t, .anchorMissing⟩
    | some a =>
      let r := s.splice a snippets
      if r.inserted = 0 then ⟨s.name, r.text, .nothingNew a.kind⟩
      else ⟨s.name, r.text, .spliced a.kind r.inserted⟩

theorem apply_nil (s : Strategy) (t : Text) : s.apply t [] = ⟨s.name, t, .empty⟩ := rfl

theorem apply_of_findAnchor_eq_none {s : Strategy} {t : Text} {snippets : List Text}
    (hs : snippets ≠ []) (h : s.findAnchor t = none) :
    s.apply t snippets = ⟨s.name, t, .anchorMissing⟩ := by
  simp [apply, hs, h]

theorem apply_of_findAnchor_eq_some {s : Strategy} {t : Text} {snippets : List Text} {a : Anchor}
    (hs : snippets ≠ []) (h : s.findAnchor t = some a) :
    s.apply t snippets = ⟨s.name, (s.splice a snippets).text,
      if (s.splice a snippets).inserted = 0 then .nothingNew a.kind
      else .spliced a.kind (s.splice a snippets).inserted⟩ := by
  simp only [apply, h, List.isEmpty_eq_false_iff.2 hs, Bool.false_eq_true, if_false]
  split <;> rfl

end Strategy

end Graft.Splice
