import Graft.Batch.Sample
import Graft.Config.Reader
import Graft.Output.Targets
import Graft.Proofs.Output.Write
import Mathlib.Data.List.Infix

/-!
# Writing the patched texts

The two texts are written one after the other, so that the listing takes the router's place where
both names lead to one.

* `OutputTarget.write_cases`: what writing the patched texts does;
* `OutputTarget.write_eq_ok`: what a success leaves;
* `OutputTarget.destination_files_eq_iff`: where names of plain components lead;
* `OutputTarget.write_readText`: when both texts can be read afterwards.
-/

namespace Graft

open FileTree

namespace OutputTarget

variable {o : OutputTarget} {names : OutputNames}

theorem write_of_dryRun (h : o.dryRun = true) (patched : Targets) (t : FileTree) :
    o.write (m := StateM FileTree) names patched t = (.ok (o.files names), t) := by
  rw [write]
  simp only [h, if_true]
  rfl

/-- The directory is made, with those it is in, and the two texts are written. -/
theorem staysWithin_write (w : Location) (names : OutputNames) (patched : Targets) :
    StaysWithin w (fun l => ∃ a ∈ o.dir :: o.dir.ancestors, a.destination w = l)
      (fun l s => ∃ f ∈ o.planned names patched, l = f.path.destination w ∧ s = f.text)
      (o.write (m := StateM FileTree) names patched) := by
  rw [write]
  split
  · exact .pure _
  apply (Output.staysWithin_makeDir o.dir fun l hl => Path.onWay_iff.1 hl).bind
  intro r
  split
  · exact .pure _
  have hall : StaysWithin w (fun l => ∃ a ∈ o.dir :: o.dir.ancestors, a.destination w = l)
      (fun l s => ∃ f ∈ o.planned names patched, l = f.path.destination w ∧ s = f.text)
      (Output.writeAll (m := StateM FileTree) Output.write (o.planned names patched)) := by
    apply Output.staysWithin_writeAll
    intro f hf
    exact Output.staysWithin_write f ⟨f, hf, rfl, rfl⟩
  apply hall.bind
  intro r
  split <;> exact .pure _

/-- What is answered is what was to be written, and it has been written. -/
theorem write_cases (h : o.dryRun = false) (patched : Targets) (t : FileTree) :
    (∃ e, (o.write (m := StateM FileTree) names patched t).1 = .error e) ∨
      ∃ t₁ : FileTree, t₁.workingDir = t.workingDir ∧
        (Output.writeAll (m := StateM FileTree) Output.write (o.planned names patched) t₁).1 =
          .ok () ∧
        o.write (m := StateM FileTree) names patched t = (.ok (o.files names),
          (Output.writeAll (m := StateM FileTree) Output.write (o.planned names patched) t₁).2) := by
  have hdir : StaysWithin t.workingDir (fun _ => True) (fun _ _ => False)
      (Output.makeDir (m := StateM FileTree) o.dir) :=
    Output.staysWithin_makeDir o.dir fun _ _ => trivial
  rw [write]
  simp only [h, Bool.false_eq_true, if_false]
  rw [bind_apply]
  cases hmade : (Output.makeDir (m := StateM FileTree) o.dir t).1 with
  | error e => exact .inl ⟨e, rfl⟩
  | ok _ =>
    simp only
    rw [bind_apply]
    cases hall : (Output.writeAll (m := StateM FileTree) Output.write (o.planned names patched)
        (Output.makeDir (m := StateM FileTree) o.dir t).2).1 with
    | error e => exact .inl ⟨e, rfl⟩
    | ok _ => exact .inr ⟨_, (hdir t rfl).workingDir, hall, rfl⟩

section
variable {patched : Targets} {t t' : FileTree} {files : OutputFiles}

/-- The listing can be read where it was written, and so can the router where it leads elsewhere;
both paths lead somewhere. -/
theorem write_eq_ok (hdry : o.dryRun = false)
    (h : o.write (m := StateM FileTree) names patched t = (.ok files, t')) :
    files = o.files names ∧ t'.workingDir = t.workingDir ∧
      (t'.locate files.router = .ok (Path.destination t.workingDir files.router)) ∧
      t'.readText files.listing = .ok patched.listing ∧
      (Path.destination t.workingDir files.router ≠ Path.destination t.workingDir files.listing →
        t'.readText files.router = .ok patched.router) := by
  rcases write_cases hdry patched t with ⟨e, he⟩ | ⟨t₁, hwd, hall, hok⟩
  · rw [h] at he
    cases he
  obtain ⟨hfiles, rfl⟩ := Prod.mk.inj (h.symm.trans hok)
  obtain rfl := Except.ok.inj hfiles
  have hwrites := Output.writes_write t.workingDir
  have hchanged := staysWithin_write (o := o) t.workingDir names patched t rfl
  rw [hok] at hchanged
  refine ⟨rfl, hchanged.workingDir, hwrites.locate_writeAll hwd hall List.mem_cons_self,
    hwrites.readText_writeAll hwd [_] [] hall nofun, fun hne => ?_⟩
  refine hwrites.readText_writeAll hwd [] [_] hall ?_
  intro g hg
  obtain rfl := List.mem_singleton.1 hg
  exact hne.symm

/-- Names of plain components lead to one file exactly if they have the same components. -/
theorem destination_files_eq_iff {w : Location} {rs ls : List Text}
    (hr : Path.components names.router = rs.map .normal)
    (hl : Path.components names.listing = ls.map .normal) :
    Path.destination w (o.files names).router = Path.destination w (o.files names).listing ↔
      rs = ls := by
  rw [OutputTarget.files, Path.destination_join hr, Path.destination_join hl,
    List.append_cancel_left_eq]

/-- **Both texts can be read back unless one file takes both.**  After a success the listing holds
the patched text, and the router does exactly if the two paths lead to different files, or the
texts are the same. -/
theorem write_readText (hdry : o.dryRun = false)
    (h : o.write (m := StateM FileTree) names patched t = (.ok files, t')) :
    t'.readText files.listing = .ok patched.listing ∧
      (t'.readText files.router = .ok patched.router ↔
        Path.destination t.workingDir files.router ≠ Path.destination t.workingDir files.listing ∨
          patched.router = patched.listing) := by
  obtain ⟨-, hwd, hlocate, hlisting, hrouter⟩ := write_eq_ok hdry h
  refine ⟨hlisting, ?_⟩
  by_cases hsame : Path.destination t.workingDir files.router =
      Path.destination t.workingDir files.listing
  · obtain ⟨-, hget⟩ := readText_eq_ok_iff.1 hlisting
    rw [hwd, ← hsame] at hget
    rw [readText_eq_ok_iff, hwd, hget]
    simp [hlocate, hsame, eq_comm]
  · exact iff_of_true (hrouter hsame) (.inl hsame)

end

/-- The sample is stored under two names, one of which leads through a directory that is there to a
file named like the other. -/
theorem write_readText_nested :
    let o : OutputTarget := { dir := "out".toList }
    let names : OutputNames := ⟨"app//App.tsx".toList, "App.tsx".toList⟩
    let files : OutputFiles := ⟨"out/app//App.tsx".toList, "out/App.tsx".toList⟩
    let patched : Targets := .sample
    let t : FileTree :=
      ⟨[(["out".toList], .directory), (["out".toList, "app".toList], .directory)], []⟩
    let t' := (o.write (m := StateM FileTree) names patched t).2
    o.dryRun = false ∧ o.write (m := StateM FileTree) names patched t = (.ok files, t') ∧
      t'.readText files.listing = .ok patched.listing ∧
      t'.readText files.router = .ok patched.router := by
  intro o names files patched t t'
  have hok : (o.write (m := StateM FileTree) names patched t).1 = .ok files := by decide +kernel
  have h : o.write (m := StateM FileTree) names patched t = (.ok files, t') := Prod.ext hok rfl
  have hfiles : files = o.files names := by decide +kernel
  have hapart : Path.destination t.workingDir files.router ≠
      Path.destination t.workingDir files.listing := by
    have hr : Path.components names.router = ["app".toList, "App.tsx".toList].map .normal := by
      decide +kernel
    have hl : Path.components names.listing = ["App.tsx".toList].map .normal := by decide +kernel
    rw [hfiles, Ne, destination_files_eq_iff hr hl]
    decide
  obtain ⟨hlisting, hrouter⟩ := write_readText rfl h
  exact ⟨rfl, h, hlisting, hrouter.2 (.inl hapart)⟩

/-- Two names for one file make a configuration, and the writing succeeds, but the router's text is
lost. -/
theorem write_overwrites :
    let o : OutputTarget := { dir := "out".toList }
    let names : OutputNames := ⟨"App.tsx".toList, "./App.tsx".toList⟩
    let files : OutputFiles := ⟨"out/App.tsx".toList, "out/./App.tsx".toList⟩
    let patched : Targets := ⟨"router\n".toList, "listing\n".toList⟩
    let r := o.write (m := StateM FileTree) names patched {}
    Config.parse ("[output]\nrouter_file_name = \"App.tsx\"\n".toList ++
        "listing_file_name = \"./App.tsx\"\n".toList) = .ok { output := names } ∧
      r.1 = .ok files ∧ r.2.readText files.router = .ok patched.listing ∧
      patched.listing ≠ patched.router := by
  decide +kernel

end OutputTarget

end Graft
