/-!
# Steps that may fail

* `bind_eq_ok_iff`, `check_eq_ok_iff`: a program in steps succeeds where each step does;
* `bind_eq_error_iff`: it fails where one of its steps does;
* `map_eq_ok_iff`: a program with its answer changed succeeds where it does;
* `foldlM_error_of_mem`: a run fails that takes a step that always does.
-/

namespace Graft

variable {ε α β : Type}

theorem ok_bind (a : α) (f : α → Except ε β) : (Except.ok a >>= f) = f a := rfl

theorem bind_eq_ok_iff {x : Except ε α} {f : α → Except ε β} {b : β} :
    (x >>= f) = .ok b ↔ ∃ a, x = .ok a ∧ f a = .ok b := by
  cases x with
  | error e => exact ⟨fun h => (nomatch h), fun ⟨_, h, _⟩ => (nomatch h)⟩
  | ok a =>
    refine ⟨fun h => ⟨a, rfl, h⟩, ?_⟩
    rintro ⟨_, ha, h⟩
    exact (Except.ok.inj ha) ▸ h

theorem bind_eq_error_iff {x : Except ε α} {f : α → Except ε β} {e : ε} :
    (x >>= f) = .error e ↔ x = .error e ∨ ∃ a, x = .ok a ∧ f a = .error e := by
  cases x with
  | error e' =>
    refine ⟨fun h => .inl (congrArg Except.error (Except.error.inj h)), ?_⟩
    rintro (h | ⟨_, ha, -⟩)
    · exact congrArg Except.error (Except.error.inj h)
    · cases ha
  | ok a =>
    refine ⟨fun h => .inr ⟨a, rfl, h⟩, ?_⟩
    rintro (h | ⟨_, ha, h⟩)
    · cases h
    · exact (Except.ok.inj ha) ▸ h

/-- A check in front answers nothing. -/
theorem check_eq_ok_iff {x : Except ε Unit} {f : Unit → Except ε β} {b : β} :
    (x >>= f) = .ok b ↔ x = .ok () ∧ f () = .ok b := by
  rw [bind_eq_ok_iff]
  constructor
  · rintro ⟨_, hx, hf⟩
    exact ⟨hx, hf⟩
  · rintro ⟨hx, hf⟩
    exact ⟨(), hx, hf⟩

theorem map_eq_ok_iff {x : Except ε α} {f : α → β} {b : β} :
    x.map f = .ok b ↔ ∃ a, x = .ok a ∧ f a = b := by
  cases x with
  | error e => exact ⟨fun h => (nomatch h), fun ⟨_, h, _⟩ => (nomatch h)⟩
  | ok a =>
    refine ⟨fun h => ⟨a, rfl, Except.ok.inj h⟩, ?_⟩
    rintro ⟨_, ha, rfl⟩
    rw [Except.ok.inj ha]
    rfl

/-- A step that always fails makes the run fail that takes it. -/
theorem foldlM_error_of_mem {f : α → β → Except ε α} {xs : List β} {x : β} (hx : x ∈ xs)
    (hf : ∀ a, ∃ e, f a x = .error e) (a : α) : ∃ e, xs.foldlM f a = .error e := by
  induction xs generalizing a with
  | nil => cases hx
  | cons y ys ih =>
    rw [List.foldlM_cons]
    rcases List.mem_cons.1 hx with rfl | hx
    · obtain ⟨e, he⟩ := hf a
      exact ⟨e, by rw [he]; rfl⟩
    · cases f a y with
      | error e => exact ⟨e, rfl⟩
      | ok b => exact ih hx b

end Graft
