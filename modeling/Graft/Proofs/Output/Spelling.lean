import Graft.Proofs.File.Path
import Graft.Proofs.Output.Module

/-!
# Spellings of a file's path

A path may be spelled with more slashes and dots than it needs, and still goes through the same
components, but for the dot that it may begin with.  That dot comes to nothing in the path of a
module's file, but it hides the source directory behind it.

* `Path.components_eq_undotted`: what a spelling decides is whether there is a dot in front;
* `relativeModulePath_eq`: the path of a file by its components, with and without that dot;
* `relativeModulePath_respelled`: which spellings of a path are answered alike.
-/

namespace Graft

namespace Path

/-- The components of a path without the dot that it may begin with. -/
def undotted (p : Path) : List Component := p.components.filter (· ≠ .current)

/-- The path is spelled with a dot in front. -/
def LeadsDot (p : Path) : Prop := .current ∈ p.components

instance (p : Path) : Decidable p.LeadsDot := inferInstanceAs (Decidable (_ ∈ _))

theorem ofSegment_ne_current {s : Text} (h : s ≠ dot) : Component.ofSegment s ≠ .current := by
  intro hs
  rw [Component.ofSegment, if_neg h] at hs
  split at hs <;> cases hs

/-- Behind the front of a path no dot counts. -/
theorem current_notMem_map_countingSegments (segments : List Text) :
    .current ∉ (countingSegments false segments).map Component.ofSegment := by
  induction segments with
  | nil => exact List.not_mem_nil
  | cons s rest ih =>
    rw [countingSegments]
    split
    · rename_i hs
      have hdot : s ≠ dot := by
        rintro rfl
        cases hs
      rw [List.map_cons, List.mem_cons, not_or]
      exact ⟨(ofSegment_ne_current hdot).symm, ih⟩
    · exact ih

/-- A dot counts in front of a relative path, and nowhere else. -/
theorem components_cases {p : Path} (h : p.isAbsolute = false) :
    (∃ cs, p.components = .current :: cs ∧ .current ∉ cs) ∨ .current ∉ p.components := by
  rw [components, if_neg (Bool.eq_false_iff.1 h)]
  cases Text.splitAt '/' p with
  | nil => exact .inr List.not_mem_nil
  | cons s rest =>
    by_cases hs : s = dot
    · subst hs
      exact .inl ⟨_, rfl, current_notMem_map_countingSegments rest⟩
    · have hcounts : counts true s = counts false s := by simp [counts, hs]
      rw [countingSegments, hcounts]
      exact .inr (current_notMem_map_countingSegments (s :: rest))

theorem filter_eq_self_of_notMem {cs : List Component} (h : .current ∉ cs) :
    cs.filter (· ≠ .current) = cs := by
  refine List.filter_eq_self.2 fun c hc => decide_eq_true ?_
  rintro rfl
  exact h hc

/-- What a spelling of a path decides is whether there is a dot in front. -/
theorem components_eq_undotted {p : Path} (h : p.isAbsolute = false) :
    p.components = if p.LeadsDot then .current :: p.undotted else p.undotted := by
  rcases components_cases h with ⟨cs, hp, hcs⟩ | hp
  · have hdot : p.LeadsDot := by
      rw [LeadsDot, hp]
      exact List.mem_cons_self
    rw [if_pos hdot, undotted, hp, List.filter_cons_of_neg (by simp), filter_eq_self_of_notMem hcs]
  · have hdot : ¬p.LeadsDot := hp
    rw [if_neg hdot, undotted, filter_eq_self_of_notMem hp]

end Path

open Text

variable {p q : Path}

/-- Components without the source directory if they begin with it. -/
def withoutSource : List Path.Component → List Path.Component
  | .normal name :: rest => if name = sourceDir then rest else .normal name :: rest
  | cs => cs

theorem moduleComponents_eq (p : Path) : moduleComponents p = withoutSource p.components := rfl

/-- The place that components name, unless they lead out or come to nothing. -/
def placeOf? (cs : List Path.Component) : Option Path :=
  (namesOf? cs).bind fun names => if names.isEmpty then none else some (joinWith ['/'] names)

/-- The components of a path behind the source directory, which is left out in front, but not behind
a dot. -/
def sourced (p : Path) : List Path.Component :=
  if p.LeadsDot then p.undotted else withoutSource p.undotted

/-- The path of a file by its components. -/
theorem relativeModulePath_eq (h : p.isAbsolute = false) :
    relativeModulePath p = (placeOf? (sourced p)).elim (.error (.unsafePath p)) .ok := by
  have hnames : namesOf? (moduleComponents p) = namesOf? (sourced p) := by
    rw [moduleComponents_eq, Path.components_eq_undotted h, sourced]
    split <;> rfl
  rw [relativeModulePath, hnames, placeOf?]
  cases namesOf? (sourced p) with
  | none => rfl
  | some names => cases names <;> rfl

/-- Two paths are answered alike: both with the same place, or both as unsafe. -/
def AnsweredAlike (p q : Path) : Prop :=
  (∃ r, relativeModulePath p = .ok r ∧ relativeModulePath q = .ok r) ∨
    relativeModulePath p = .error (.unsafePath p) ∧ relativeModulePath q = .error (.unsafePath q)

theorem answeredAlike_iff (hp : p.isAbsolute = false) (hq : q.isAbsolute = false) :
    AnsweredAlike p q ↔ placeOf? (sourced p) = placeOf? (sourced q) := by
  rw [AnsweredAlike, relativeModulePath_eq hp, relativeModulePath_eq hq]
  cases placeOf? (sourced p) <;> cases placeOf? (sourced q) <;> simp [eq_comm]

theorem joinWith_cons_ne {names : List Text} (hne : names ≠ []) (name : Text) :
    joinWith ['/'] (name :: names) ≠ joinWith ['/'] names := by
  obtain ⟨n, more, rfl⟩ := List.exists_cons_of_ne_nil hne
  intro h
  have hlen := congrArg List.length h
  simp only [joinWith, List.length_append, List.length_singleton] at hlen
  omega

/-- Leaving out the source directory makes a difference wherever it can. -/
theorem placeOf?_withoutSource_iff {cs : List Path.Component} (hroot : .root ∉ cs) :
    placeOf? (withoutSource cs) = placeOf? cs ↔
      .parent ∈ cs ∨ cs.head? ≠ some (.normal sourceDir) := by
  by_cases hsource : cs.head? = some (.normal sourceDir)
  · obtain ⟨rest, rfl⟩ := List.head?_eq_some_iff.1 hsource
    have hrest : withoutSource (.normal sourceDir :: rest) = rest := by
      rw [withoutSource, if_pos rfl]
    have hup : namesOf? rest = none ↔ .parent ∈ rest := by
      rw [namesOf?_eq_none_iff]
      exact or_iff_right fun h => hroot (List.mem_cons_of_mem _ h)
    rw [hrest, placeOf?, placeOf?, namesOf?]
    cases hnames : namesOf? rest with
    | none => simp [hup.1 hnames]
    | some names =>
      have hdown : .parent ∉ rest := by
        rw [← hup, hnames]
        exact Option.some_ne_none names
      by_cases hne : names = []
      · simp [hne, hdown]
      · simp [hne, hdown, (joinWith_cons_ne hne sourceDir).symm]
  · refine iff_of_true ?_ (.inr hsource)
    unfold withoutSource
    split
    · rename_i name rest
      rw [if_neg]
      rintro rfl
      exact hsource rfl
    · rfl

/-- **Spellings of a path are answered alike unless a dot hides the source directory.**  Two
relative paths through the same components are answered alike exactly if both or none has a dot in
front, or they are unsafe because they go up, or the source directory is not the first of their
components. -/
theorem relativeModulePath_respelled (hp : p.isAbsolute = false) (hq : q.isAbsolute = false)
    (h : p.undotted = q.undotted) :
    AnsweredAlike p q ↔ (p.LeadsDot ↔ q.LeadsDot) ∨ .parent ∈ p.components ∨
      p.undotted.head? ≠ some (.normal sourceDir) := by
  have hroot : .root ∉ q.undotted := fun hmem => by
    have habs := root_mem_components_iff.1 (List.mem_filter.1 hmem).1
    rw [hq] at habs
    cases habs
  have hparent : .parent ∈ p.components ↔ .parent ∈ q.undotted := by
    rw [← h, Path.undotted, List.mem_filter]
    exact (and_iff_left rfl).symm
  have hsource := placeOf?_withoutSource_iff hroot
  rw [answeredAlike_iff hp hq, sourced, sourced, hparent, h]
  by_cases hpd : p.LeadsDot <;> by_cases hqd : q.LeadsDot
  · simp [hpd, hqd]
  · simpa [hpd, hqd, eq_comm] using hsource
  · simpa [hpd, hqd] using hsource
  · simp [hpd, hqd]

/-- Slashes and dots that come to nothing, in front too. -/
theorem relativeModulePath_respelled_slashes :
    let p := ".//lib/./src/x.ts".toList
    let q := "lib/src//x.ts/.".toList
    Path.isAbsolute p = false ∧ Path.isAbsolute q = false ∧ Path.undotted p = Path.undotted q ∧
      AnsweredAlike p q := by
  intro p q
  have hp : Path.isAbsolute p = false := by decide
  have hq : Path.isAbsolute q = false := by decide
  have h : Path.undotted p = Path.undotted q := by decide +kernel
  exact ⟨hp, hq, h, (relativeModulePath_respelled hp hq h).2 (.inr (.inr (by decide +kernel)))⟩

/-- The source directory is left out of a path, but not when the path is spelled with a dot in
front. -/
theorem source_kept_behind_dot :
    let p := "src/modules/a/index.tsx".toList
    let q := "./src/modules/a/index.tsx".toList
    Path.isAbsolute p = false ∧ Path.isAbsolute q = false ∧ Path.undotted p = Path.undotted q ∧
      relativeModulePath p = .ok "modules/a/index.tsx".toList ∧
      relativeModulePath q = .ok "src/modules/a/index.tsx".toList ∧ ¬AnsweredAlike p q := by
  intro p q
  have hp : relativeModulePath p = .ok "modules/a/index.tsx".toList := by decide +kernel
  have hq : relativeModulePath q = .ok "src/modules/a/index.tsx".toList := by decide +kernel
  refine ⟨by decide, by decide, by decide +kernel, hp, hq, ?_⟩
  rw [AnsweredAlike, hp, hq]
  rintro (⟨r, hr, hr'⟩ | ⟨he, -⟩)
  · obtain rfl := Except.ok.inj hr
    exact absurd (Except.ok.inj hr') (by decide)
  · cases he

end Graft
