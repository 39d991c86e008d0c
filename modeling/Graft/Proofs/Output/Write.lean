import Graft.Output.Write
import Graft.Proofs.File.Store

/-!
# What writing files leaves

* `Writes`: what a step does that writes one file;
* `Writes.readText_writeAll`: after all files are written, each location holds the text of the last
  one that leads there;
* `Writes.locate_writeAll`: and each path leads there.
-/

namespace Graft.Output

open FileTree

variable {w : Location} {made : Location → Prop} {written : Location → Text → Prop}

theorem staysWithin_makeDir (p : Path) (h : ∀ l, p.OnWay w l → made l) :
    StaysWithin w made written (makeDir (m := StateM FileTree) p) :=
  (staysWithin_makeDirAll p h).bind fun _ => .pure _

theorem staysWithin_write (f : PlannedFile) (h : written (f.path.destination w) f.text) :
    StaysWithin w made written (write (m := StateM FileTree) f) :=
  (staysWithin_writeText w f.path f.text h).bind fun _ => .pure _

theorem staysWithin_writeUnderParent (f : PlannedFile) (hmade : ∀ l, f.path.OnWay w l → made l)
    (hwritten : written (f.path.destination w) f.text) :
    StaysWithin w made written (writeUnderParent (m := StateM FileTree) f) := by
  have hparent : StaysWithin w made written (makeParent (m := StateM FileTree) f) := by
    rw [makeParent]
    split
    · rename_i p hp
      apply staysWithin_makeDir
      intro l hl
      exact hmade l (Path.onWay_of_mem_ancestors (List.mem_of_head? hp) hl)
    · exact .pure _
  apply hparent.bind
  intro r
  split
  · exact .pure _
  · exact staysWithin_write f hwritten

variable {step : PlannedFile → StateM FileTree (Except OutputError Unit)} {fs : List PlannedFile}

theorem staysWithin_writeAll (h : ∀ f ∈ fs, StaysWithin w made written (step f)) :
    StaysWithin w made written (writeAll step fs) := by
  induction fs with
  | nil => exact .pure _
  | cons f fs ih =>
    obtain ⟨hf, hfs⟩ := List.forall_mem_cons.1 h
    apply hf.bind
    intro r
    split
    · exact .pure _
    · exact ih hfs

/-- A step for one file fails with a fault of the tree, or leaves the file's text where its path
leads.  Whatever it does, it makes directories on the way and writes nothing but that text. -/
structure Writes (w : Location) (step : PlannedFile → StateM FileTree (Except OutputError Unit)) :
    Prop where
  fails : ∀ f t e, (step f t).1 = .error e → ∃ p fault, e = .io p fault
  readText : ∀ f t, (step f t).1 = .ok () → (step f t).2.readText f.path = .ok f.text
  staysWithin : ∀ f, StaysWithin w (f.path.OnWay w)
    (fun l s => l = f.path.destination w ∧ s = f.text) (step f)

theorem exists_of_mapError_eq_error {r : Except IoFault Unit} {p : Path} {e : OutputError}
    (h : r.mapError (.io p) = .error e) : ∃ fault, e = .io p fault := by
  cases r with
  | error fault => exact ⟨fault, (Except.error.inj h).symm⟩
  | ok _ => cases h

theorem readText_write (f : PlannedFile) (t : FileTree)
    (h : (write (m := StateM FileTree) f t).1 = .ok ()) :
    (write (m := StateM FileTree) f t).2.readText f.path = .ok f.text := by
  change ((FileTree.step (fun t => t.write f.path (.text f.text)) t).1.mapError
    (OutputError.io f.path)) = .ok () at h
  change (FileTree.step (fun t => t.write f.path (.text f.text)) t).2.readText f.path = _
  cases hwrite : t.write f.path (.text f.text) with
  | error e =>
    rw [FileTree.step, hwrite] at h
    cases h
  | ok t' =>
    rw [FileTree.step, hwrite]
    exact readText_of_write hwrite

theorem writes_write (w : Location) : Writes w (write (m := StateM FileTree)) where
  fails := by
    intro f t e h
    obtain ⟨fault, rfl⟩ := exists_of_mapError_eq_error h
    exact ⟨f.path, fault, rfl⟩
  readText := readText_write
  staysWithin := by
    intro f
    exact staysWithin_write f ⟨rfl, rfl⟩

theorem writeUnderParent_of_error {f : PlannedFile} {t : FileTree} {e : OutputError}
    (h : (makeParent (m := StateM FileTree) f t).1 = .error e) :
    (writeUnderParent (m := StateM FileTree) f t).1 = .error e := by
  rw [writeUnderParent, bind_apply, h]
  rfl

theorem writeUnderParent_of_ok {f : PlannedFile} {t : FileTree}
    (h : (makeParent (m := StateM FileTree) f t).1 = .ok ()) :
    writeUnderParent (m := StateM FileTree) f t =
      write (m := StateM FileTree) f (makeParent (m := StateM FileTree) f t).2 := by
  rw [writeUnderParent, bind_apply, h]

theorem makeParent_fails {f : PlannedFile} {t : FileTree} {e : OutputError}
    (h : (makeParent (m := StateM FileTree) f t).1 = .error e) : ∃ p fault, e = .io p fault := by
  cases hp : f.path.parent? with
  | none =>
    rw [makeParent, hp] at h
    cases h
  | some p =>
    rw [makeParent, hp] at h
    obtain ⟨fault, rfl⟩ := exists_of_mapError_eq_error h
    exact ⟨p, fault, rfl⟩

theorem writes_writeUnderParent (w : Location) :
    Writes w (writeUnderParent (m := StateM FileTree)) where
  fails := by
    intro f t e h
    cases hparent : (makeParent (m := StateM FileTree) f t).1 with
    | error d =>
      rw [writeUnderParent_of_error hparent] at h
      obtain rfl := Except.error.inj h
      exact makeParent_fails hparent
    | ok _ =>
      rw [writeUnderParent_of_ok hparent] at h
      exact (writes_write w).fails f _ e h
  readText := by
    intro f t h
    cases hparent : (makeParent (m := StateM FileTree) f t).1 with
    | error d =>
      rw [writeUnderParent_of_error hparent] at h
      cases h
    | ok _ =>
      rw [writeUnderParent_of_ok hparent] at h ⊢
      exact readText_write f _ h
  staysWithin := by
    intro f
    exact staysWithin_writeUnderParent f (fun _ hl => hl) ⟨rfl, rfl⟩

theorem writeAll_cons_of_error {f : PlannedFile} {t : FileTree} {e : OutputError}
    (h : (step f t).1 = .error e) : (writeAll step (f :: fs) t).1 = .error e := by
  rw [writeAll, bind_apply, h]
  rfl

theorem writeAll_cons_of_ok {f : PlannedFile} {t : FileTree} (h : (step f t).1 = .ok ()) :
    writeAll step (f :: fs) t = writeAll step fs (step f t).2 := by
  rw [writeAll, bind_apply, h]

namespace Writes

variable (h : Writes w step) {t : FileTree}

include h

theorem writeAll_fails {e : OutputError} (he : (writeAll step fs t).1 = .error e) :
    ∃ p fault, e = .io p fault := by
  induction fs generalizing t with
  | nil => cases he
  | cons f fs ih =>
    cases hf : (step f t).1 with
    | error d =>
      rw [writeAll_cons_of_error hf] at he
      obtain rfl := Except.error.inj he
      exact h.fails f t d hf
    | ok _ =>
      rw [writeAll_cons_of_ok hf] at he
      exact ih he

/-- After all files are written, each location holds the text of the last one that leads there. -/
theorem readText_writeAll (ht : t.workingDir = w) (before after : List PlannedFile)
    {f : PlannedFile} (hok : (writeAll step (before ++ f :: after) t).1 = .ok ())
    (hlast : ∀ g ∈ after, g.path.destination w ≠ f.path.destination w) :
    (writeAll step (before ++ f :: after) t).2.readText f.path = .ok f.text := by
  induction before generalizing t with
  | nil =>
    rw [List.nil_append] at hok ⊢
    cases hf : (step f t).1 with
    | error d =>
      rw [writeAll_cons_of_error hf] at hok
      cases hok
    | ok _ =>
      rw [writeAll_cons_of_ok hf]
      have hwd : (step f t).2.workingDir = w := (h.staysWithin f t ht).workingDir.trans ht
      -- those behind write elsewhere
      have hrest : StaysWithin w (fun _ => True)
          (fun l _ => ∃ g ∈ after, l = g.path.destination w) (writeAll step after) := by
        apply staysWithin_writeAll
        intro g hg
        exact (h.staysWithin g).mono (fun _ _ => trivial) fun l s hl => ⟨g, hg, hl.1⟩
      apply (hrest _ hwd).readText (h.readText f t hf)
      rw [hwd]
      rintro s ⟨g, hg, he⟩
      exact hlast g hg he.symm
  | cons g before ih =>
    rw [List.cons_append] at hok ⊢
    cases hg : (step g t).1 with
    | error d =>
      rw [writeAll_cons_of_error hg] at hok
      cases hok
    | ok _ =>
      rw [writeAll_cons_of_ok hg] at hok ⊢
      exact ih ((h.staysWithin g t ht).workingDir.trans ht) hok

/-- After all files are written, each path leads to where its text was written. -/
theorem locate_writeAll (ht : t.workingDir = w) (hok : (writeAll step fs t).1 = .ok ())
    {f : PlannedFile} (hf : f ∈ fs) :
    (writeAll step fs t).2.locate f.path = .ok (f.path.destination w) := by
  induction fs generalizing t with
  | nil => cases hf
  | cons g fs ih =>
    cases hg : (step g t).1 with
    | error d =>
      rw [writeAll_cons_of_error hg] at hok
      cases hok
    | ok _ =>
      rw [writeAll_cons_of_ok hg] at hok ⊢
      have hwd : (step g t).2.workingDir = w := (h.staysWithin g t ht).workingDir.trans ht
      rcases List.mem_cons.1 hf with rfl | hf
      · obtain ⟨hlocate, -⟩ := readText_eq_ok_iff.1 (h.readText f t hg)
        have hrest : StaysWithin w (fun _ => True) (fun _ _ => True) (writeAll step fs) := by
          apply staysWithin_writeAll
          intro g _
          exact (h.staysWithin g).mono (fun _ _ => trivial) fun _ _ _ => trivial
        rw [hwd] at hlocate
        exact (hrest _ hwd).locate hlocate
      · exact ih hwd hok hf

end Writes

end Graft.Output
