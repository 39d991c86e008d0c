import Graft.Batch.Files
import Graft.Proofs.Output.Targets

/-!
# Batches over files

A batch over files is a batch over what they hold, and it leaves little behind.

* `TargetPaths.read_cases`: reading the targets changes nothing;
* `runFiles_refines`: what a batch over files answers, and what it changes, however it ends.
-/

namespace Graft

open FileTree

namespace TargetPaths

/-- The targets are files of the tree with these texts. -/
structure Hold (paths : TargetPaths) (t : FileTree) (targets : Targets) : Prop where
  router : t.readText paths.router = .ok targets.router
  listing : t.readText paths.listing = .ok targets.listing

theorem readFile_of_error {p : Path} {t : FileTree} {fault : IoFault}
    (h : t.readText p = .error fault) :
    readFile (m := StateM FileTree) p t = (.error (.io p fault), t) := by
  change ((t.readText p).mapError (BatchError.io p), t) = _
  rw [h]
  rfl

theorem readFile_of_ok {p : Path} {t : FileTree} {s : Text} (h : t.readText p = .ok s) :
    readFile (m := StateM FileTree) p t = (.ok s, t) := by
  change ((t.readText p).mapError (BatchError.io p), t) = _
  rw [h]
  rfl

/-- A tree holds one pair of targets. -/
theorem Hold.unique {paths : TargetPaths} {t : FileTree} {targets targets' : Targets}
    (h : paths.Hold t targets) (h' : paths.Hold t targets') : targets = targets' := by
  obtain ⟨router, listing⟩ := targets
  obtain ⟨router', listing'⟩ := targets'
  have hrouter : router = router' := Except.ok.inj (h.router.symm.trans h'.router)
  have hlisting : listing = listing' := Except.ok.inj (h.listing.symm.trans h'.listing)
  rw [hrouter, hlisting]

/-- Reading the targets changes nothing, and gives what they hold or says what they lack. -/
theorem read_cases (paths : TargetPaths) (t : FileTree) :
    (∃ targets, paths.Hold t targets ∧
        paths.read (m := StateM FileTree) t = (.ok targets, t)) ∨
      (∀ targets, ¬paths.Hold t targets) ∧ ∃ e, e.isPrecondition ∧
        paths.read (m := StateM FileTree) t = (.error e, t) := by
  have hisFile : ∀ p, FileStore.isFile (m := StateM FileTree) p t = (t.isFile p, t) := fun _ => rfl
  rw [read, bind_apply, hisFile]
  cases hrouterFile : t.isFile paths.router with
  | false =>
    refine .inr ⟨fun targets h => ?_, _, rfl, rfl⟩
    rw [isFile_of_readText h.router] at hrouterFile
    cases hrouterFile
  | true =>
    simp only [Bool.not_true, Bool.false_eq_true, if_false]
    rw [bind_apply, hisFile]
    cases hlistingFile : t.isFile paths.listing with
    | false =>
      refine .inr ⟨fun targets h => ?_, _, rfl, rfl⟩
      rw [isFile_of_readText h.listing] at hlistingFile
      cases hlistingFile
    | true =>
      simp only [Bool.not_true, Bool.false_eq_true, if_false]
      cases hrouter : t.readText paths.router with
      | error fault =>
        rw [bind_apply, readFile_of_error hrouter]
        refine .inr ⟨fun targets h => ?_, _, rfl, rfl⟩
        rw [h.router] at hrouter
        cases hrouter
      | ok router =>
        rw [bind_apply, readFile_of_ok hrouter]
        simp only
        cases hlisting : t.readText paths.listing with
        | error fault =>
          rw [bind_apply, readFile_of_error hlisting]
          refine .inr ⟨fun targets h => ?_, _, rfl, rfl⟩
          rw [h.listing] at hlisting
          cases hlisting
        | ok listing =>
          rw [bind_apply, readFile_of_ok hlisting]
          exact .inl ⟨⟨router, listing⟩, ⟨hrouter, hlisting⟩, rfl⟩

end TargetPaths

namespace Integrator

/-- The result of a batch with the paths of the patched texts, if there is anything to write. -/
def resultIn (i : Integrator) (inputs : List Text) (o : OutputTarget) (targets : Targets) :
    BatchResult :=
  { i.run inputs targets with
    outputFiles := if 0 < (i.run inputs targets).processed
      then some ⟨o.dir.join i.config.output.router, o.dir.join i.config.output.listing⟩
      else none }

/-- What a batch over files may do to a tree: `r` is what it answers, and `t'` the tree
afterwards. -/
structure Refines (i : Integrator) (inputs : List Text) (paths : TargetPaths) (o : OutputTarget)
    (t : FileTree) (r : Except BatchError BatchResult) (t' : FileTree) : Prop where
  /-- A batch that is refused because of its targets changes nothing. -/
  refused_unchanged : ∀ e, r = .error e → e.isPrecondition → t' = t
  dryRun_unchanged : o.dryRun → t' = t
  /-- A batch that processes nothing changes nothing. -/
  idle_unchanged : (∀ targets, paths.Hold t targets → (i.run inputs targets).processed = 0) → t' = t
  /-- A batch whose targets cannot be read is refused because of them. -/
  unread : (∀ targets, ¬paths.Hold t targets) → ∃ e, e.isPrecondition ∧ r = .error e
  /-- Any other batch answers the result of the batch over the texts that its targets held, unless
  there is something to write and it cannot be written. -/
  answer : ∀ targets, paths.Hold t targets → r = .ok (i.resultIn inputs o targets) ∨
    o.dryRun = false ∧ 0 < (i.run inputs targets).processed ∧ ∃ e, r = .error (.output e)
  /-- However it ends, the output directory and those it is in are made where they are missing, and
  the two paths get the patched texts. -/
  changed : ChangedWithin
    (fun l => ∃ a ∈ o.dir :: o.dir.ancestors, a.destination t.workingDir = l)
    (fun l s => ∃ targets, paths.Hold t targets ∧
      (l = (o.dir.join i.config.output.router).destination t.workingDir ∧
          s = (i.run inputs targets).targets.router ∨
        l = (o.dir.join i.config.output.listing).destination t.workingDir ∧
          s = (i.run inputs targets).targets.listing))
    t t'
  /-- After success the patched texts can be read, the router unless the listing took its place. -/
  stored : ∀ result, r = .ok result → 0 < result.processed → o.dryRun = false →
    t'.readText (o.dir.join i.config.output.listing) = .ok result.targets.listing ∧
      ((o.dir.join i.config.output.listing).destination t.workingDir ≠
          (o.dir.join i.config.output.router).destination t.workingDir →
        t'.readText (o.dir.join i.config.output.router) = .ok result.targets.router)

section Runs

variable {i : Integrator} {inputs : List Text} {paths : TargetPaths} {o : OutputTarget}
  {t : FileTree} {targets : Targets}

theorem runFiles_of_unread {e : BatchError}
    (h : paths.read (m := StateM FileTree) t = (.error e, t)) :
    i.runFiles (m := StateM FileTree) inputs paths o t = (.error e, t) := by
  rw [runFiles, bind_apply, h]
  rfl

theorem runFiles_of_idle (h : paths.read (m := StateM FileTree) t = (.ok targets, t))
    (hidle : (i.run inputs targets).processed = 0) :
    i.runFiles (m := StateM FileTree) inputs paths o t = (.ok (i.run inputs targets), t) := by
  rw [runFiles, bind_apply, h]
  simp only [hidle, if_true]
  rfl

theorem runFiles_of_write (h : paths.read (m := StateM FileTree) t = (.ok targets, t))
    (hbusy : (i.run inputs targets).processed ≠ 0)
    {r : Except OutputError OutputFiles} {t' : FileTree}
    (hw : o.write (m := StateM FileTree) i.config.output (i.run inputs targets).targets t =
      (r, t')) :
    i.runFiles (m := StateM FileTree) inputs paths o t =
      ((r.mapError .output).map fun files =>
        { i.run inputs targets with outputFiles := some files }, t') := by
  rw [runFiles, bind_apply, h]
  simp only [hbusy, if_false]
  rw [bind_apply, hw]
  cases r <;> rfl

theorem refines_unread {e : BatchError} (hnone : ∀ targets, ¬paths.Hold t targets)
    (he : e.isPrecondition) : i.Refines inputs paths o t (.error e) t where
  refused_unchanged := fun _ _ _ => rfl
  dryRun_unchanged := fun _ => rfl
  idle_unchanged := fun _ => rfl
  unread := fun _ => ⟨e, he, rfl⟩
  answer := fun targets h => absurd h (hnone targets)
  changed := .refl t
  stored := nofun

/-- A batch that has nothing to write, or is not to write, changes nothing. -/
theorem refines_unwritten (h : paths.Hold t targets)
    (hdry : 0 < (i.run inputs targets).processed → o.dryRun = true) :
    i.Refines inputs paths o t (.ok (i.resultIn inputs o targets)) t where
  refused_unchanged := fun _ _ _ => rfl
  dryRun_unchanged := fun _ => rfl
  idle_unchanged := fun _ => rfl
  unread := fun hnone => absurd h (hnone targets)
  answer := by
    intro targets' h'
    rw [h.unique h']
    exact .inl rfl
  changed := .refl t
  stored := by
    rintro _ ⟨⟩ hbusy hwrites
    rw [hdry hbusy] at hwrites
    cases hwrites

theorem resultIn_of_idle (hidle : (i.run inputs targets).processed = 0) :
    i.run inputs targets = i.resultIn inputs o targets := by
  have hnone : ¬0 < (i.run inputs targets).processed := Nat.not_lt.2 (Nat.le_zero.2 hidle)
  rw [resultIn, if_neg hnone]
  rfl

theorem resultIn_of_busy (hbusy : (i.run inputs targets).processed ≠ 0) :
    { i.run inputs targets with outputFiles := some (o.files i.config.output) } =
      i.resultIn inputs o targets := by
  rw [resultIn, if_pos (Nat.pos_of_ne_zero hbusy)]
  rfl

/-- A batch that gets to writing makes the output directory and writes the patched texts, as far as
it comes. -/
theorem refines_written (h : paths.Hold t targets) (hbusy : (i.run inputs targets).processed ≠ 0)
    (hdry : o.dryRun = false) {r : Except OutputError OutputFiles} {t' : FileTree}
    (hw : o.write (m := StateM FileTree) i.config.output (i.run inputs targets).targets t =
      (r, t')) :
    i.Refines inputs paths o t ((r.mapError .output).map fun files =>
      { i.run inputs targets with outputFiles := some files }) t' where
  refused_unchanged := by
    intro e he hpre
    cases r with
    | error e' =>
      obtain rfl := Except.error.inj he
      cases hpre
    | ok files => cases he
  dryRun_unchanged := by
    intro hdry'
    rw [hdry] at hdry'
    cases hdry'
  idle_unchanged := fun hidle => absurd (hidle targets h) hbusy
  unread := fun hnone => absurd h (hnone targets)
  answer := by
    intro targets' h'
    rw [← h.unique h']
    rcases OutputTarget.write_cases hdry (i.run inputs targets).targets t with
      ⟨e, he⟩ | ⟨t₁, -, -, hok⟩
    · rw [hw] at he
      obtain rfl := he
      exact .inr ⟨hdry, Nat.pos_of_ne_zero hbusy, e, rfl⟩
    · obtain ⟨rfl, -⟩ := Prod.mk.inj (hw.symm.trans hok)
      exact .inl (congrArg Except.ok (resultIn_of_busy hbusy))
  changed := by
    have hchanged := OutputTarget.staysWithin_write (o := o) t.workingDir i.config.output
      (i.run inputs targets).targets t rfl
    rw [hw] at hchanged
    apply hchanged.mono fun _ hl => hl
    rintro l s ⟨f, hf, hl, hs⟩
    refine ⟨targets, h, ?_⟩
    rcases List.mem_cons.1 hf with rfl | hf
    · exact .inl ⟨hl, hs⟩
    · obtain rfl := List.mem_singleton.1 hf
      exact .inr ⟨hl, hs⟩
  stored := by
    intro result hresult _ _
    obtain ⟨files, hfiles, rfl⟩ := map_eq_ok_iff.1 hresult
    cases r with
    | error e => cases hfiles
    | ok written =>
      obtain ⟨rfl, -, -, hlisting, hrouter⟩ := OutputTarget.write_eq_ok hdry hw
      exact ⟨hlisting, fun hne => hrouter hne.symm⟩

end Runs

/-- **A batch over files is the batch over their texts.**  If it is refused, dry or idle it leaves
no trace, and otherwise none but the output. -/
theorem runFiles_refines (i : Integrator) (inputs : List Text) (paths : TargetPaths)
    (o : OutputTarget) (t : FileTree) :
    i.Refines inputs paths o t (i.runFiles (m := StateM FileTree) inputs paths o t).1
      (i.runFiles (m := StateM FileTree) inputs paths o t).2 := by
  rcases paths.read_cases t with ⟨targets, hhold, hread⟩ | ⟨hnone, e, he, hread⟩
  · by_cases hidle : (i.run inputs targets).processed = 0
    · rw [runFiles_of_idle hread hidle, resultIn_of_idle hidle]
      exact refines_unwritten hhold fun hbusy => absurd hidle (Nat.ne_of_gt hbusy)
    cases hdry : o.dryRun with
    | true =>
      have hrun : i.runFiles (m := StateM FileTree) inputs paths o t =
          (.ok (i.resultIn inputs o targets), t) := by
        rw [runFiles_of_write hread hidle (OutputTarget.write_of_dryRun hdry _ t),
          ← resultIn_of_busy hidle]
        rfl
      rw [hrun]
      exact refines_unwritten hhold fun _ => hdry
    | false =>
      rw [runFiles_of_write hread hidle rfl]
      exact refines_written hhold hidle hdry rfl
  · rw [runFiles_of_unread hread]
    exact refines_unread hnone he

end Integrator

end Graft
