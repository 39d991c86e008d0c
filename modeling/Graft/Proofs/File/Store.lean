import Graft.Proofs.File.Tree

/-!
# What programs change in a tree

A program `StaysWithin` bounds if it changes every tree within them, however it ends.  Steps that stay
within bounds make programs that do.

* `StaysWithin.bind`: one step after the other;
* `staysWithin_makeDirAll`: a directory is made, with those it is in, and nothing else changes.
-/

namespace Graft

namespace FileTree

variable {α β : Type} {w : Location} {made made' : Location → Prop}
  {written written' : Location → Text → Prop}

/-- A program runs on the tree that the one before it leaves. -/
theorem bind_apply (x : StateM FileTree α) (f : α → StateM FileTree β) (t : FileTree) :
    (x >>= f) t = f (x t).1 (x t).2 := rfl

/-- A program run in the working directory `w` changes every tree within the same bounds. -/
def StaysWithin (w : Location) (made : Location → Prop) (written : Location → Text → Prop)
    (x : StateM FileTree α) : Prop :=
  ∀ t : FileTree, t.workingDir = w → ChangedWithin made written t (x t).2

namespace StaysWithin

theorem of_unchanged {x : StateM FileTree α} (h : ∀ t, (x t).2 = t) :
    StaysWithin w made written x := by
  intro t _
  rw [h]
  exact .refl t

theorem pure (a : α) : StaysWithin w made written (Pure.pure a : StateM FileTree α) :=
  of_unchanged fun _ => rfl

/-- The second step starts from the tree that the first one leaves. -/
theorem bind {x : StateM FileTree α} {f : α → StateM FileTree β}
    (hx : StaysWithin w made written x) (hf : ∀ a, StaysWithin w made written (f a)) :
    StaysWithin w made written (x >>= f) := by
  intro t ht
  have hstep := hx t ht
  exact hstep.trans (hf (x t).1 (x t).2 (hstep.workingDir.trans ht))

theorem mono {x : StateM FileTree α} (h : StaysWithin w made written x)
    (hm : ∀ l, made l → made' l) (hw : ∀ l s, written l s → written' l s) :
    StaysWithin w made' written' x :=
  fun t ht => (h t ht).mono hm hw

end StaysWithin

open FileStore

theorem staysWithin_makeDir (w : Location) (p : Path) (hp : made (p.destination w)) :
    StaysWithin w made written (FileStore.makeDir (m := StateM FileTree) p) := by
  rintro t rfl
  change ChangedWithin _ _ t (step (fun t => t.makeDir p) t).2
  rw [step]
  split
  · rename_i t' h
    obtain ⟨hnone, rfl⟩ := makeDir_eq_ok h
    exact .put_directory hp hnone
  · exact .refl t

theorem staysWithin_writeText (w : Location) (p : Path) (s : Text)
    (hp : written (p.destination w) s) :
    StaysWithin w made written (FileStore.writeText (m := StateM FileTree) p s) := by
  rintro t rfl
  change ChangedWithin _ _ t (step (fun t => t.write p (.text s)) t).2
  rw [step]
  split
  · rename_i t' h
    obtain ⟨-, hfile, rfl⟩ := write_eq_ok h
    exact .put_file hp hfile
  · exact .refl t

theorem staysWithin_unlessDir (p : Path) (e : IoFault) :
    StaysWithin w made written (unlessDir (m := StateM FileTree) p e) := by
  apply StaysWithin.bind
  · exact .of_unchanged fun _ => rfl
  · intro dir
    split <;> exact .pure _

theorem staysWithin_makeDir_unlessDir (p : Path) (hp : made (p.destination w)) :
    StaysWithin w made written (do
      match ← FileStore.makeDir (m := StateM FileTree) p with
      | .ok () => return .ok ()
      | .error e => unlessDir p e) := by
  apply (staysWithin_makeDir w p hp).bind
  intro r
  split
  · exact .pure _
  · exact staysWithin_unlessDir p _

theorem staysWithin_makeDirUnder (p : Path) (outer : List Path)
    (h : ∀ a ∈ p :: outer, made (a.destination w)) :
    StaysWithin w made written (makeDirUnder (m := StateM FileTree) p outer) := by
  induction outer generalizing p with
  | nil =>
    obtain ⟨hp, -⟩ := List.forall_mem_cons.1 h
    rw [makeDirUnder]
    split
    · exact .pure _
    · exact staysWithin_makeDir_unlessDir p hp
  | cons a outer ih =>
    obtain ⟨hp, houter⟩ := List.forall_mem_cons.1 h
    rw [makeDirUnder]
    split
    · exact .pure _
    apply (staysWithin_makeDir w p hp).bind
    intro r
    split
    · exact .pure _
    · -- the directory that `p` is in is missing, and made first
      apply (ih a houter).bind
      intro r
      split
      · exact .pure _
      · exact staysWithin_makeDir_unlessDir p hp
    · exact staysWithin_unlessDir p _

/-- A directory is made, with those it is in, and nothing else changes. -/
theorem staysWithin_makeDirAll (p : Path) (h : ∀ l, p.OnWay w l → made l) :
    StaysWithin w made written (makeDirAll (m := StateM FileTree) p) := by
  apply staysWithin_makeDirUnder
  intro a ha
  exact h _ (Path.onWay_iff.2 ⟨a, ha, rfl⟩)

end FileTree

end Graft
