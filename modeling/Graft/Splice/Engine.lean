import Graft.Splice.Imports
import Graft.Splice.Routes
import Graft.Splice.Icons
import Graft.Splice.Entries

/-!
# Engines

An engine holds at most one strategy for each kind of snippet.  `strategy?_register` says that a
strategy that is registered replaces the one of its kind and touches no other.
-/

namespace Graft.Splice

/-- The strategy for a kind, built from settings. -/
def Strategy.ofSettings (s : AnchorSettings) : SnippetKind → Except SetupError Strategy
  | .importLine => Imports.strategy s
  | .route => Routes.strategy s
  | .icon => Icons.strategy s
  | .listEntry => Entries.strategy s

/-- At most one strategy for each kind of snippet. -/
structure Engine where
  strategy? : SnippetKind → Option Strategy

namespace Engine

def empty : Engine := ⟨fun _ => none⟩

/-- The engine with a strategy put in the place of the one of its kind. -/
def register (e : Engine) (s : Strategy) : Engine :=
  ⟨fun k => if k = s.kind then some s else e.strategy? k⟩

/-- Whether there is a strategy for a kind. -/
def contains (e : Engine) (k : SnippetKind) : Bool := (e.strategy? k).isSome

def size (e : Engine) : Nat := (SnippetKind.all.filter e.contains).length

def isEmpty (e : Engine) : Bool := e.size == 0

/-- The engine with all four strategies for some settings. -/
def ofSettings (s : AnchorSettings) : Except SetupError Engine :=
  SnippetKind.all.foldlM (fun e k => e.register <$> Strategy.ofSettings s k) empty

def missing? (e : Engine) : Option SnippetKind := SnippetKind.all.find? fun k => !e.contains k

def apply (e : Engine) (k : SnippetKind) (t : Text) (snippets : List Text) :
    Except SetupError Insertion :=
  match e.strategy? k with
  | some s => .ok (s.apply t snippets)
  | none => .error (.noStrategy k)

theorem strategy?_register (e : Engine) (s : Strategy) (k : SnippetKind) :
    (e.register s).strategy? k = if k = s.kind then some s else e.strategy? k := rfl

theorem missing?_eq_none_iff (e : Engine) : e.missing? = none ↔ ∀ k, (e.strategy? k).isSome := by
  rw [missing?, List.find?_eq_none]
  constructor
  · intro h k
    have := h k (SnippetKind.mem_all k)
    simpa [contains, Option.isSome_iff_ne_none] using this
  · intro h k _
    simp [contains, h k]

end Engine

end Graft.Splice
