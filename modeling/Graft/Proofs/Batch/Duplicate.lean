import Graft.Batch.Duplicate

/-!
# When a record is a duplicate

What each rule asks of a record, as the record shows it.

* `matches?_inRouter_iff`, `matches?_inListing_iff`, `matches?_stagedInBatch_iff`: the three rules;
* `find?_of_shownIn`: the rule about the router goes before the others;
* `isSome_find?_iff`: a record is a duplicate exactly when one of the rules holds.
-/

namespace Graft.DuplicateRule

open Text Metadata

/-- A text shows the record's component, and its route's path. -/
structure ShownIn (r : Record) (t : Text) : Prop where
  component : ∃ name, r.component = some name ∧ contains name t
  path : ∃ p, r.routePath = some p ∧ contains (routeAttribute p) t

/-- A text shows the path of the record's entry. -/
def ListedIn (r : Record) (t : Text) : Prop :=
  ∃ p, r.entryPath = some p ∧ ∃ key ∈ entryKeys p, contains key t

/-- One of some routes shows the path of the record's route. -/
def StagedAmong (r : Record) (routes : List Text) : Prop :=
  ∃ p, r.routePath = some p ∧ ∃ t ∈ routes, contains (routeAttribute p) t

theorem holdsOf_iff {v : Option Text} {holds : Text → Bool} :
    holdsOf v holds ↔ ∃ x, v = some x ∧ holds x := by
  cases v with
  | none => simp [holdsOf]
  | some x => simp [holdsOf]

variable {targets : Targets} {routes : List Text} {r : Record}

theorem matches?_inRouter_iff :
    matches? targets routes r .inRouter ↔ ShownIn r targets.router := by
  rw [matches?, Bool.and_eq_true, holdsOf_iff, holdsOf_iff]
  exact ⟨fun h => ⟨h.1, h.2⟩, fun h => ⟨h.component, h.path⟩⟩

theorem matches?_inListing_iff :
    matches? targets routes r .inListing ↔ ListedIn r targets.listing := by
  simp only [matches?, holdsOf_iff, List.any_eq_true, ListedIn]

theorem matches?_stagedInBatch_iff :
    matches? targets routes r .stagedInBatch ↔ StagedAmong r routes := by
  simp only [matches?, holdsOf_iff, List.any_eq_true, StagedAmong]

theorem find?_of_shownIn (h : ShownIn r targets.router) (routes : List Text) :
    find? targets routes r = some .inRouter := by
  rw [find?, all, List.find?_cons_of_pos (matches?_inRouter_iff.2 h)]

theorem isSome_find?_iff :
    (find? targets routes r).isSome ↔
      ShownIn r targets.router ∨ ListedIn r targets.listing ∨ StagedAmong r routes := by
  rw [← @matches?_inRouter_iff targets routes r, ← @matches?_inListing_iff targets routes r,
    ← @matches?_stagedInBatch_iff targets routes r]
  have hsome : (find? targets routes r).isSome ↔ ∃ rule, matches? targets routes r rule := by
    constructor
    · intro h
      obtain ⟨rule, hrule⟩ := Option.isSome_iff_exists.1 h
      exact ⟨rule, List.find?_some hrule⟩
    · rintro ⟨rule, hrule⟩
      refine Option.isSome_iff_ne_none.2 fun hn => ?_
      rw [find?_eq_none_iff.1 hn rule] at hrule
      cases hrule
  rw [hsome]
  constructor
  · rintro ⟨rule, hrule⟩
    cases rule with
    | inRouter => exact .inl hrule
    | inListing => exact .inr (.inl hrule)
    | stagedInBatch => exact .inr (.inr hrule)
  · rintro (h | h | h)
    · exact ⟨_, h⟩
    · exact ⟨_, h⟩
    · exact ⟨_, h⟩

end Graft.DuplicateRule
