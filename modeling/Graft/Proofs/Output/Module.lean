import Graft.Output.Module
import Graft.Proofs.Output.Write
import Mathlib.Data.List.Forall2

/-!
# Writing a module is confined

All paths of a module are checked before one is written, so an unsafe one leaves the tree alone, and
safe ones stay below the output directory.

* `relativeModulePath_cases`, `slugPath_cases`: what is unsafe;
* `plan_cases`: what is planned is below the output directory;
* `write_confined`: what writing a module does to a tree, however it ends.
-/

namespace Graft

open Text FileTree

/-! ## Safe paths -/

/-- The path of a file cannot be followed into a module: it is absolute, it goes up, or there is no
name in it behind the source directory. -/
def UnsafeFile (p : Path) : Prop :=
  p.isAbsolute ∨ .parent ∈ p.components ∨ ∀ n, .normal n ∉ moduleComponents p

/-- A slug is one name. -/
def IsSlug (slug : Text) : Prop := ∃ n, Path.components slug = [.normal n]

theorem namesOf?_eq_none_iff {cs : List Path.Component} :
    namesOf? cs = none ↔ .root ∈ cs ∨ .parent ∈ cs := by
  induction cs with
  | nil => simp [namesOf?]
  | cons c cs ih => cases c <;> simp [namesOf?, ih]

theorem mem_of_namesOf? {cs : List Path.Component} {names : List Text}
    (h : namesOf? cs = some names) {n : Text} : n ∈ names ↔ .normal n ∈ cs := by
  induction cs generalizing names with
  | nil =>
    obtain rfl := Option.some.inj h
    simp
  | cons c cs ih =>
    cases c with
    | root => cases h
    | parent => cases h
    | current => simpa using ih h
    | normal m =>
      obtain ⟨more, hmore, rfl⟩ := Option.map_eq_some_iff.1 h
      simp [ih hmore]

/-- Only a name is left out in front. -/
theorem mem_moduleComponents_iff {p : Path} {c : Path.Component} (hc : ∀ n, c ≠ .normal n) :
    c ∈ moduleComponents p ↔ c ∈ p.components := by
  rw [moduleComponents]
  split
  · rename_i name rest hcs
    rw [hcs]
    split <;> simp [hc]
  · exact Iff.rfl

theorem moduleComponents_subset (p : Path) : moduleComponents p ⊆ p.components := by
  intro c hc
  rw [moduleComponents] at hc
  split at hc
  · rename_i name rest hcs
    rw [hcs]
    split at hc
    · exact List.mem_cons_of_mem _ hc
    · exact hc
  · exact hc

theorem root_mem_components_iff {p : Path} : .root ∈ p.components ↔ p.isAbsolute := by
  have hsegment : ∀ s, Path.Component.ofSegment s ≠ .root := by
    intro s h
    rw [Path.Component.ofSegment] at h
    split at h
    · cases h
    · split at h <;> cases h
  rw [Path.components]
  split
  · rename_i habs
    exact ⟨fun _ => habs, fun _ => List.mem_cons_self⟩
  · rename_i habs
    simp [habs, hsegment]

/-- A safe path of a file comes to its names, one after the other. -/
theorem relativeModulePath_cases (p : Path) :
    (UnsafeFile p ∧ relativeModulePath p = .error (.unsafePath p)) ∨
      (¬UnsafeFile p ∧ ∃ names, names ≠ [] ∧ (∀ n ∈ names, Path.IsName n) ∧
        relativeModulePath p = .ok (joinWith ['/'] names)) := by
  have hparent : .parent ∈ moduleComponents p ↔ .parent ∈ p.components := by
    apply mem_moduleComponents_iff
    exact fun _ => nofun
  have hroot : .root ∈ moduleComponents p ↔ p.isAbsolute := by
    rw [← root_mem_components_iff]
    apply mem_moduleComponents_iff
    exact fun _ => nofun
  rw [relativeModulePath]
  cases hnames : namesOf? (moduleComponents p) with
  | none =>
    refine .inl ⟨?_, rfl⟩
    rcases namesOf?_eq_none_iff.1 hnames with h | h
    · exact .inl (hroot.1 h)
    · exact .inr (.inl (hparent.1 h))
  | some names =>
    have hmem := fun n => mem_of_namesOf? hnames (n := n)
    cases names with
    | nil =>
      refine .inl ⟨.inr (.inr fun n hn => ?_), rfl⟩
      exact absurd ((hmem n).2 hn) List.not_mem_nil
    | cons n names =>
      refine .inr ⟨?_, n :: names, List.cons_ne_nil _ _, fun m hm => ?_, rfl⟩
      · rintro (habs | hup | hnone)
        · have hleads := namesOf?_eq_none_iff.2 (.inl (hroot.2 habs))
          rw [hnames] at hleads
          cases hleads
        · have hleads := namesOf?_eq_none_iff.2 (.inr (hparent.2 hup))
          rw [hnames] at hleads
          cases hleads
        · exact hnone n ((hmem n).1 List.mem_cons_self)
      · exact Path.isName_of_mem_components (moduleComponents_subset p ((hmem m).1 hm))

theorem slugPath_cases (slug : Text) :
    (¬IsSlug slug ∧ slugPath slug = .error (.unsafePath slug)) ∨
      (IsSlug slug ∧ slugPath slug = .ok slug) := by
  rw [slugPath, IsSlug]
  split
  · rename_i n h
    exact .inr ⟨⟨n, h⟩, rfl⟩
  · rename_i h
    exact .inl ⟨fun ⟨n, hn⟩ => h n hn, rfl⟩

namespace ModuleOutput

variable {o : ModuleOutput} {d : Document} {p : ModulePlan}

/-! ## Plans -/

/-- A planned file has the content of a file of the document, and names below the directory. -/
def Plans (o : ModuleOutput) (f : ModuleFile) (g : PlannedFile) : Prop :=
  g.text = f.content ∧ ∃ names, names ≠ [] ∧ (∀ n ∈ names, Path.IsName n) ∧
    g.path = o.dir.join (joinWith ['/'] names)

theorem fileOf_cases (o : ModuleOutput) (f : ModuleFile) :
    (UnsafeFile f.path ∧ o.fileOf f = .error (.unsafePath f.path)) ∨
      (¬UnsafeFile f.path ∧ ∃ g, o.Plans f g ∧ o.fileOf f = .ok g) := by
  rw [fileOf]
  rcases relativeModulePath_cases f.path with ⟨hbad, h⟩ | ⟨hsafe, names, hne, hnames, h⟩
  · rw [h]
    exact .inl ⟨hbad, rfl⟩
  · rw [h]
    exact .inr ⟨hsafe, _, ⟨rfl, names, hne, hnames, rfl⟩, rfl⟩

theorem files_cases (o : ModuleOutput) (files : List ModuleFile) :
    (∃ f ∈ files, UnsafeFile f.path ∧ files.mapM o.fileOf = .error (.unsafePath f.path)) ∨
      ((∀ f ∈ files, ¬UnsafeFile f.path) ∧
        ∃ planned, files.mapM o.fileOf = .ok planned ∧ List.Forall₂ o.Plans files planned) := by
  induction files with
  | nil => exact .inr ⟨fun f hf => absurd hf List.not_mem_nil, [], rfl, .nil⟩
  | cons f files ih =>
    rw [List.mapM_cons]
    rcases o.fileOf_cases f with ⟨hbad, h⟩ | ⟨hsafe, g, hg, h⟩ <;> rw [h]
    · exact .inl ⟨f, List.mem_cons_self, hbad, rfl⟩
    rcases ih with ⟨f', hf', hbad, h'⟩ | ⟨hall, planned, h', hplans⟩ <;> rw [h']
    · exact .inl ⟨f', List.mem_cons_of_mem _ hf', hbad, rfl⟩
    · exact .inr ⟨List.forall_mem_cons.2 ⟨hsafe, hall⟩, g :: planned, rfl, .cons hg hplans⟩

/-- A document is refused: a path of a file is unsafe, or a slug is asked for and is not one name. -/
def Refuses (o : ModuleOutput) (d : Document) : Prop :=
  (∃ f ∈ d.files, UnsafeFile f.path) ∨ ((o.saveSnippets ∨ o.savePlan) ∧ ¬IsSlug d.slug)

theorem Plans.below {f : ModuleFile} {g : PlannedFile} (h : o.Plans f g) :
    Path.Below o.dir g.path := by
  obtain ⟨-, names, hne, hnames, hpath⟩ := h
  exact ⟨_, names, hne, Path.components_joinWith hne hnames, hpath⟩

theorem below_files {files : List ModuleFile} {planned : List PlannedFile}
    (h : List.Forall₂ o.Plans files planned) : ∀ g ∈ planned, Path.Below o.dir g.path := by
  induction h with
  | nil => exact fun g hg => absurd hg List.not_mem_nil
  | cons hfg _ ih => exact List.forall_mem_cons.2 ⟨hfg.below, ih⟩

theorem below_moduleDir {slug : Text} (h : IsSlug slug) :
    Path.Below o.dir ((o.dir.join "modules".toList).join slug) := by
  obtain ⟨n, hn⟩ := h
  have hslug : Path.components slug = [n].map .normal := hn
  have hmodules : Path.Below o.dir (o.dir.join "modules".toList) :=
    ⟨_, ["modules".toList], List.cons_ne_nil _ _, by decide +kernel, rfl⟩
  exact hmodules.join hslug

theorem below_snippetIn {dir : Path} (h : Path.Below o.dir dir) (s : SnippetField × Text) :
    Path.Below o.dir (snippetIn dir s).path := by
  have hname : Path.components (s.1.key.toList ++ ".txt".toList) =
      [s.1.key.toList ++ ".txt".toList].map .normal := by
    cases s.1 <;> decide +kernel
  have hdir : Path.components "integration".toList = ["integration".toList].map .normal := by
    decide +kernel
  exact (h.join hdir).join hname

theorem below_planIn {dir : Path} (h : Path.Below o.dir dir) (plan : Text) :
    Path.Below o.dir (planIn dir plan).path := by
  have hname : Path.components "PLAN.md".toList = ["PLAN.md".toList].map .normal := by
    decide +kernel
  exact h.join hname

/-- Files, snippets and a plan that are below the directory make a plan below it. -/
theorem below_all {files : List PlannedFile} {dir : Path}
    (hfiles : ∀ g ∈ files, Path.Below o.dir g.path) (hdir : Path.Below o.dir dir)
    (snippets : List (SnippetField × Text)) (plan : Option Text) :
    ∀ g ∈ ModulePlan.all ⟨files, snippets.map (snippetIn dir), plan.map (planIn dir)⟩,
      Path.Below o.dir g.path := by
  intro g hg
  rw [ModulePlan.all, List.mem_append, List.mem_append, Option.mem_toList] at hg
  rcases hg with (hg | hg) | hg
  · exact hfiles g hg
  · obtain ⟨s, -, rfl⟩ := List.mem_map.1 hg
    exact below_snippetIn hdir s
  · obtain ⟨plan, -, rfl⟩ := Option.map_eq_some_iff.1 hg
    exact below_planIn hdir plan

/-- A document is refused for an unsafe path, or everything that is planned is below the output
directory. -/
theorem plan_cases (o : ModuleOutput) (d : Document) :
    (o.Refuses d ∧ ∃ q, o.plan d = .error (.unsafePath q)) ∨
      (¬o.Refuses d ∧ ∃ p, o.plan d = .ok p ∧ List.Forall₂ o.Plans d.files p.files ∧
        ∀ g ∈ p.all, Path.Below o.dir g.path) := by
  rw [plan]
  rcases o.files_cases d.files with ⟨f, hf, hbad, h⟩ | ⟨hsafe, files, h, hplans⟩ <;> rw [h]
  · exact .inl ⟨.inl ⟨f, hf, hbad⟩, f.path, rfl⟩
  have hnone : ¬∃ f ∈ d.files, UnsafeFile f.path := fun ⟨f, hf, hbad⟩ => hsafe f hf hbad
  have hfiles := below_files hplans
  by_cases hasked : o.saveSnippets || o.savePlan
  · have hasked' : o.saveSnippets ∨ o.savePlan := Bool.or_eq_true_iff.1 hasked
    rcases slugPath_cases d.slug with ⟨hslug, h'⟩ | ⟨hslug, h'⟩
    · refine .inl ⟨.inr ⟨hasked', hslug⟩, d.slug, ?_⟩
      simp [bind, Except.bind, hasked, moduleDir, h']
    · refine .inr ⟨?_, ⟨files,
        (if o.saveSnippets then d.snippets.toList else []).map
          (snippetIn ((o.dir.join "modules".toList).join d.slug)),
        (if o.savePlan then d.plan else none).map
          (planIn ((o.dir.join "modules".toList).join d.slug))⟩, ?_, hplans, ?_⟩
      · rintro (hfile | ⟨-, hno⟩)
        · exact hnone hfile
        · exact hno hslug
      · simp only [bind, Except.bind, hasked, if_true, moduleDir, h']
        cases o.saveSnippets <;> cases o.savePlan <;> rfl
      · exact below_all hfiles (below_moduleDir hslug) _ _
  · refine .inr ⟨?_, ⟨files, [], none⟩, ?_, hplans, ?_⟩
    · rintro (hfile | ⟨hasked', -⟩)
      · exact hnone hfile
      · exact hasked (Bool.or_eq_true_iff.2 hasked')
    · simp only [bind, Except.bind, hasked]
      rfl
    · simpa [ModulePlan.all] using hfiles

/-! ## Runs -/

variable {t : FileTree}

theorem write_of_error {e : OutputError} (h : o.plan d = .error e) (t : FileTree) :
    o.write (m := StateM FileTree) d t = (.error e, t) := by
  rw [write, h]
  rfl

theorem write_of_dryRun (h : o.plan d = .ok p) (hdry : o.dryRun = true) (t : FileTree) :
    o.write (m := StateM FileTree) d t = (.ok p, t) := by
  rw [write, h]
  simp only [hdry, if_true]
  rfl

theorem write_of_writeAll (h : o.plan d = .ok p) (hdry : o.dryRun = false) (t : FileTree) :
    o.write (m := StateM FileTree) d t =
      ((Output.writeAll (m := StateM FileTree) Output.writeUnderParent p.all t).1.map fun _ => p,
        (Output.writeAll (m := StateM FileTree) Output.writeUnderParent p.all t).2) := by
  rw [write, h]
  simp only [hdry, Bool.false_eq_true, if_false]
  rw [bind_apply]
  cases (Output.writeAll (m := StateM FileTree) Output.writeUnderParent p.all t).1 <;> rfl

/-- A location is strictly below the output directory. -/
def Inside (o : ModuleOutput) (w l : Location) : Prop :=
  ∃ names, names ≠ [] ∧ l = o.dir.destination w ++ names

/-- What writing a document may do to a tree: `r` is what it answers, and `t'` the tree afterwards. -/
structure Confined (o : ModuleOutput) (d : Document) (t : FileTree)
    (r : Except OutputError ModulePlan) (t' : FileTree) : Prop where
  /-- Unsafe paths, and they alone, are refused as unsafe. -/
  refused : (∃ q, r = .error (.unsafePath q)) ↔ o.Refuses d
  /-- A refused document changes nothing. -/
  refused_unchanged : (∃ q, r = .error (.unsafePath q)) → t' = t
  dryRun_unchanged : o.dryRun → t' = t
  /-- The paths of a document that is not refused are the output directory's joined with names. -/
  planned : ¬o.Refuses d → ∃ p, o.plan d = .ok p ∧ List.Forall₂ o.Plans d.files p.files ∧
    ∀ g ∈ p.all, Path.Below o.dir g.path
  /-- What is planned is what is answered, unless some of it cannot be written. -/
  answer : ∀ p, o.plan d = .ok p → r = .ok p ∨
    o.dryRun = false ∧ ∃ q fault, r = .error (.io q fault)
  /-- However it ends, only the output directory and those it is in are made where they are missing,
  and all other changes are inside. -/
  changed : ChangedWithin
    (fun l => (∃ a ∈ o.dir :: o.dir.ancestors, a.destination t.workingDir = l) ∨
      o.Inside t.workingDir l)
    (fun l s => o.Inside t.workingDir l ∧ ∃ p, o.plan d = .ok p ∧
      ∃ g ∈ p.all, l = g.path.destination t.workingDir ∧ s = g.text)
    t t'
  /-- After success the last file for a location can be read there. -/
  stored : ∀ p, r = .ok p → o.dryRun = false → ∀ before g after, p.all = before ++ g :: after →
    (∀ f ∈ after, f.path.destination t.workingDir ≠ g.path.destination t.workingDir) →
    t'.readText g.path = .ok g.text
  /-- A file that nothing is planned for stays. -/
  kept : ∀ p, o.plan d = .ok p → ∀ l c, t.get? l = some (.file c) →
    (∀ g ∈ p.all, g.path.destination t.workingDir ≠ l) → t'.get? l = some (.file c)

theorem Inside.of_below {w : Location} {f : PlannedFile} (h : Path.Below o.dir f.path) :
    o.Inside w (f.path.destination w) := by
  obtain ⟨q, names, hne, hq, hpath⟩ := h
  exact ⟨names, hne, by rw [hpath, Path.destination_join hq]⟩

/-- On the way to what is below the directory there is the way to the directory, and its inside. -/
theorem onWay_of_below {w l : Location} {f : PlannedFile} (h : Path.Below o.dir f.path)
    (hl : f.path.OnWay w l) :
    (∃ a ∈ o.dir :: o.dir.ancestors, a.destination w = l) ∨ o.Inside w l := by
  obtain ⟨q, names, -, hq, hpath⟩ := h
  rw [hpath] at hl
  exact (Path.onWay_join hq hl).imp Path.onWay_iff.1 id

theorem staysWithin_all (hbelow : ∀ g ∈ p.all, Path.Below o.dir g.path) (w : Location) :
    StaysWithin w
      (fun l => (∃ a ∈ o.dir :: o.dir.ancestors, a.destination w = l) ∨ o.Inside w l)
      (fun l s => o.Inside w l ∧ ∃ g ∈ p.all, l = g.path.destination w ∧ s = g.text)
      (Output.writeAll (m := StateM FileTree) Output.writeUnderParent p.all) := by
  apply Output.staysWithin_writeAll
  intro g hg
  apply Output.staysWithin_writeUnderParent
  · intro l hl
    exact onWay_of_below (hbelow g hg) hl
  · exact ⟨.of_below (hbelow g hg), g, hg, rfl, rfl⟩

theorem confined_of_error {q : Path} (hrefuses : o.Refuses d)
    (h : o.plan d = .error (.unsafePath q)) (t : FileTree) :
    o.Confined d t (.error (.unsafePath q)) t where
  refused := ⟨fun _ => hrefuses, fun _ => ⟨q, rfl⟩⟩
  refused_unchanged := fun _ => rfl
  dryRun_unchanged := fun _ => rfl
  planned := fun hsafe => absurd hrefuses hsafe
  answer := by
    intro p hp
    rw [h] at hp
    cases hp
  changed := .refl t
  stored := nofun
  kept := by
    intro p hp
    rw [h] at hp
    cases hp

section Planned

variable (hsafe : ¬o.Refuses d) (h : o.plan d = .ok p)
  (hplans : List.Forall₂ o.Plans d.files p.files) (hbelow : ∀ g ∈ p.all, Path.Below o.dir g.path)

include hsafe h hplans hbelow

theorem confined_of_dryRun (hdry : o.dryRun = true) (t : FileTree) :
    o.Confined d t (.ok p) t where
  refused := ⟨fun ⟨_, he⟩ => (nomatch he), fun hrefuses => absurd hrefuses hsafe⟩
  refused_unchanged := fun _ => rfl
  dryRun_unchanged := fun _ => rfl
  planned := fun _ => ⟨p, h, hplans, hbelow⟩
  answer := fun _ hp => .inl (h.symm.trans hp)
  changed := .refl t
  stored := by
    intro _ _ hwrites
    rw [hdry] at hwrites
    cases hwrites
  kept := fun _ _ _ _ hc _ => hc

/-- Writing is confined, with success or with a fault on the way. -/
theorem confined_of_writeAll (hdry : o.dryRun = false) (t : FileTree)
    {r : Except OutputError ModulePlan}
    (hr : r = (Output.writeAll (m := StateM FileTree) Output.writeUnderParent p.all t).1.map
      fun _ => p) :
    o.Confined d t r (Output.writeAll (m := StateM FileTree) Output.writeUnderParent p.all t).2 := by
  have hwrites := Output.writes_writeUnderParent t.workingDir
  have hchanged := staysWithin_all hbelow t.workingDir t rfl
  have hends : r = .ok p ∨ ∃ q fault, r = .error (.io q fault) := by
    cases hall : (Output.writeAll (m := StateM FileTree) Output.writeUnderParent p.all t).1 with
    | error e =>
      obtain ⟨q, fault, rfl⟩ := hwrites.writeAll_fails hall
      rw [hall] at hr
      exact .inr ⟨q, fault, hr⟩
    | ok _ =>
      rw [hall] at hr
      exact .inl hr
  have hio : ¬∃ q, r = .error (.unsafePath q) := by
    rintro ⟨q, rfl⟩
    rcases hends with he | ⟨q', fault, he⟩ <;> cases he
  exact {
    refused := ⟨fun he => absurd he hio, fun hrefuses => absurd hrefuses hsafe⟩
    refused_unchanged := fun he => absurd he hio
    dryRun_unchanged := by
      intro hdry'
      rw [hdry] at hdry'
      cases hdry'
    planned := fun _ => ⟨p, h, hplans, hbelow⟩
    answer := by
      intro p' hp'
      obtain rfl := Except.ok.inj (h.symm.trans hp')
      exact hends.imp_right fun he => ⟨hdry, he⟩
    changed := hchanged.mono (fun _ hl => hl) fun l s hs => ⟨hs.1, p, h, hs.2⟩
    stored := by
      rintro p' rfl - before g after hp hlast
      obtain ⟨_, hok, rfl⟩ := map_eq_ok_iff.1 hr.symm
      rw [hp] at hok ⊢
      exact hwrites.readText_writeAll rfl before after hok hlast
    kept := by
      intro p' hp' l c hc hl
      obtain rfl := Except.ok.inj (h.symm.trans hp')
      apply hchanged.get?_of_not_written _ hc
      rintro s ⟨-, g, hg, rfl, -⟩
      exact hl g hg rfl }

end Planned

/-- **Writing a module is confined.**  Paths are checked up front; what is written is below the output
directory, and after success it can be read. -/
theorem write_confined (o : ModuleOutput) (d : Document) (t : FileTree) :
    o.Confined d t (o.write (m := StateM FileTree) d t).1
      (o.write (m := StateM FileTree) d t).2 := by
  rcases o.plan_cases d with ⟨hrefuses, q, h⟩ | ⟨hsafe, p, h, hplans, hbelow⟩
  · rw [write_of_error h]
    exact confined_of_error hrefuses h t
  cases hdry : o.dryRun with
  | true =>
    rw [write_of_dryRun h hdry]
    exact confined_of_dryRun hsafe h hplans hbelow hdry t
  | false =>
    rw [write_of_writeAll h hdry]
    exact confined_of_writeAll hsafe h hplans hbelow hdry t rfl

end ModuleOutput

end Graft
