import Graft.Proofs.Batch.Reading

/-!
# Splicing the staged snippets of a batch

Each kind of snippet is spliced into the text that the kinds before it left.

* `patchAll_eq`: the patched targets and the warnings, kind by kind;
* `isAnchorMissing_insertionOf`: a kind is missed exactly when there are snippets of it and its
  strategy finds no anchor;
* `fullySpliced_iff`: a batch is fully spliced exactly when no kind is missed;
* `mem_unspliced_iff`: a document is listed under the kinds that were missed and that it has;
* `run_records_getElem?`: the report on each document of a run.
-/

namespace Graft

open Splice

namespace Splice.Strategy

variable {s : Strategy} {t : Text} {snippets : List Text}

theorem apply_text {a : Anchor} (hs : snippets ≠ []) (h : s.findAnchor t = some a) :
    (s.apply t snippets).text = (s.splice a snippets).text := by
  rw [apply_of_findAnchor_eq_some hs h]

theorem apply_text_of_none (h : s.findAnchor t = none) : (s.apply t snippets).text = t := by
  by_cases hs : snippets = []
  · rw [hs, apply_nil]
  · rw [apply_of_findAnchor_eq_none hs h]

theorem isAnchorMissing_apply (s : Strategy) (t : Text) (snippets : List Text) :
    (s.apply t snippets).outcome.isAnchorMissing ↔ snippets ≠ [] ∧ s.findAnchor t = none := by
  by_cases hs : snippets = []
  · simp [hs, apply, Outcome.isAnchorMissing]
  · cases h : s.findAnchor t with
    | none => simp [apply_of_findAnchor_eq_none hs h, hs, Outcome.isAnchorMissing]
    | some a =>
      rw [apply_of_findAnchor_eq_some hs h]
      dsimp only
      split <;> simp [Outcome.isAnchorMissing]

end Splice.Strategy

namespace Integrator

/-- The staged snippets of a kind. -/
def snippetsOf (staged : List Staged) (k : SnippetKind) : List Text :=
  (stagedOf staged k).map (·.2)

theorem snippetsOf_eq (staged : List Staged) (k : SnippetKind) :
    snippetsOf staged k = staged.filterMap (·.get k) := by
  simp [snippetsOf, stagedOf, List.map_filterMap, Option.map_map, Function.comp_def]

theorem mem_snippetsOf {staged : List Staged} {s : Staged} {k : SnippetKind} {t : Text}
    (hs : s ∈ staged) (hk : s.get k = some t) : t ∈ snippetsOf staged k := by
  rw [snippetsOf_eq]
  exact List.mem_filterMap.2 ⟨s, hs, hk⟩

theorem mem_affected {staged : List Staged} {s : Staged} {k : SnippetKind} {t : Text}
    (hs : s ∈ staged) (hk : s.get k = some t) : s.index ∈ (stagedOf staged k).map (·.1) := by
  refine List.mem_map_of_mem (a := (s.index, t)) ?_
  exact List.mem_filterMap.2 ⟨s, hs, by simp [hk]⟩

variable (i : Integrator) (staged : List Staged) (targets : Targets)

/-- The text that the snippets of a kind are spliced into. -/
def textBefore : SnippetKind → Text
  | .importLine => targets.router
  | .route => ((i.strategy .importLine).apply targets.router (snippetsOf staged .importLine)).text
  | .icon => targets.listing
  | .listEntry => ((i.strategy .icon).apply targets.listing (snippetsOf staged .icon)).text

/-- What comes of the snippets of a kind. -/
def insertionOf (k : SnippetKind) : Insertion :=
  (i.strategy k).apply (i.textBefore staged targets k) (snippetsOf staged k)

theorem insertionOf_text {k : SnippetKind} {a : Anchor} (hs : snippetsOf staged k ≠ [])
    (h : (i.strategy k).findAnchor (i.textBefore staged targets k) = some a) :
    (i.insertionOf staged targets k).text =
      ((i.strategy k).splice a (snippetsOf staged k)).text :=
  Strategy.apply_text hs h

theorem insertionOf_text_of_none {k : SnippetKind}
    (h : (i.strategy k).findAnchor (i.textBefore staged targets k) = none) :
    (i.insertionOf staged targets k).text = i.textBefore staged targets k :=
  Strategy.apply_text_of_none h

theorem insertionOf_text_of_nil {k : SnippetKind} (h : snippetsOf staged k = []) :
    (i.insertionOf staged targets k).text = i.textBefore staged targets k := by
  rw [insertionOf, h, Strategy.apply_nil]

/-- Either nothing happens to the text, or its kind's snippets are spliced at the anchor. -/
theorem insertionOf_text_cases (k : SnippetKind) :
    (i.insertionOf staged targets k).text = i.textBefore staged targets k ∨
      ∃ a, (i.strategy k).findAnchor (i.textBefore staged targets k) = some a ∧
        (i.insertionOf staged targets k).text =
          ((i.strategy k).splice a (snippetsOf staged k)).text := by
  by_cases hs : snippetsOf staged k = []
  · exact .inl (i.insertionOf_text_of_nil staged targets hs)
  · cases ha : (i.strategy k).findAnchor (i.textBefore staged targets k) with
    | none => exact .inl (i.insertionOf_text_of_none staged targets ha)
    | some a => exact .inr ⟨a, rfl, i.insertionOf_text staged targets hs ha⟩

/-- The kinds are spliced one after the other, each two of them into one target. -/
theorem patchAll_eq :
    i.patchAll staged targets =
      ⟨⟨(i.insertionOf staged targets .route).text, (i.insertionOf staged targets .listEntry).text⟩,
        SnippetKind.all.flatMap fun k =>
          warningOf k ((stagedOf staged k).map (·.1)) (i.insertionOf staged targets k)⟩ := by
  simp only [patchAll, SnippetKind.all, List.foldl_cons, List.foldl_nil, List.flatMap_cons,
    List.flatMap_nil, List.append_nil, List.nil_append, patch, List.append_assoc]
  rfl

theorem isAnchorMissing_insertionOf (k : SnippetKind) :
    (i.insertionOf staged targets k).outcome.isAnchorMissing ↔
      snippetsOf staged k ≠ [] ∧
        (i.strategy k).findAnchor (i.textBefore staged targets k) = none :=
  Strategy.isAnchorMissing_apply _ _ _

/-- The warning that there is when a kind is missed. -/
def missed (k : SnippetKind) : AnchorWarning :=
  ⟨k, (i.insertionOf staged targets k).strategy, (stagedOf staged k).map (·.1)⟩

theorem mem_warnings_iff {w : AnchorWarning} :
    w ∈ (i.patchAll staged targets).warnings ↔
      ∃ k, (i.insertionOf staged targets k).outcome.isAnchorMissing ∧
        w = i.missed staged targets k := by
  simp only [patchAll_eq, List.mem_flatMap, warningOf]
  constructor
  · rintro ⟨k, _, hw⟩
    split at hw
    · rename_i hm
      exact ⟨k, hm, List.mem_singleton.1 hw⟩
    · cases hw
  · rintro ⟨k, hm, rfl⟩
    exact ⟨k, k.mem_all, by rw [if_pos hm]; exact List.mem_singleton.2 rfl⟩

/-- A document is listed under the kinds that were missed and that it has snippets of. -/
theorem mem_unspliced_iff {r : RecordReport} {k : SnippetKind} :
    k ∈ (markUnspliced (i.patchAll staged targets).warnings r).unspliced ↔
      (i.insertionOf staged targets k).outcome.isAnchorMissing ∧
        r.index ∈ (stagedOf staged k).map (·.1) := by
  unfold markUnspliced
  rw [List.mem_map]
  constructor
  · rintro ⟨w, hw, rfl⟩
    obtain ⟨hw, hr⟩ := List.mem_filter.1 hw
    obtain ⟨k, hm, rfl⟩ := (i.mem_warnings_iff staged targets).1 hw
    exact ⟨hm, List.contains_iff_mem.1 hr⟩
  · rintro ⟨hm, hr⟩
    refine ⟨i.missed staged targets k, List.mem_filter.2 ⟨?_, List.contains_iff_mem.2 hr⟩, rfl⟩
    exact (i.mem_warnings_iff staged targets).2 ⟨k, hm, rfl⟩

/-- A kind that a document has and is not listed under has an anchor. -/
theorem findAnchor_of_notMem_unspliced {r : RecordReport} {k : SnippetKind} {s : Staged} {t : Text}
    (hs : s ∈ staged) (ht : s.get k = some t) (hr : r.index = s.index)
    (hk : k ∉ (markUnspliced (i.patchAll staged targets).warnings r).unspliced) :
    ∃ a, (i.strategy k).findAnchor (i.textBefore staged targets k) = some a := by
  refine Option.ne_none_iff_exists'.1 fun hn => hk ?_
  refine (i.mem_unspliced_iff staged targets).2 ⟨?_, hr ▸ mem_affected hs ht⟩
  exact (i.isAnchorMissing_insertionOf staged targets k).2
    ⟨List.ne_nil_of_mem (mem_snippetsOf hs ht), hn⟩

variable (inputs : List Text)

/-- The report of a run on each document. -/
theorem run_records_getElem? (k : Nat) :
    (i.run inputs targets).records[k]? =
      inputs[k]?.map fun input =>
        markUnspliced (i.patchAll (i.filter targets inputs).staged targets).warnings
          (i.report targets (i.stagedBefore targets inputs k) (k + 1) input) := by
  simp only [run, List.getElem?_map, records_getElem?, Option.map_map, Function.comp_def]

theorem run_map_index :
    (i.run inputs targets).records.map (·.index) =
      (i.filter targets inputs).records.map (·.index) := by
  simp only [run, List.map_map]
  rfl

theorem run_filter_isProcessed :
    ((i.run inputs targets).records.filter (·.isProcessed)).map (·.index) =
      ((i.filter targets inputs).records.filter (·.isProcessed)).map (·.index) := by
  simp only [run, List.filter_map, List.map_map]
  rfl

/-- A batch is fully spliced exactly when no kind of snippet is missed. -/
theorem fullySpliced_iff :
    (i.run inputs targets).fullySpliced ↔ ∀ k,
      snippetsOf (i.filter targets inputs).staged k ≠ [] → ∃ a,
        (i.strategy k).findAnchor (i.textBefore (i.filter targets inputs).staged targets k) =
          some a := by
  have hw : (i.run inputs targets).fullySpliced ↔
      ∀ w, w ∉ (i.patchAll (i.filter targets inputs).staged targets).warnings := by
    simp [BatchResult.fullySpliced, run, List.eq_nil_iff_forall_not_mem]
  rw [hw]
  constructor
  · intro h k hs
    refine Option.ne_none_iff_exists'.1 fun hn => ?_
    have hm := (i.isAnchorMissing_insertionOf _ targets k).2 ⟨hs, hn⟩
    exact h _ ((i.mem_warnings_iff _ targets).2 ⟨k, hm, rfl⟩)
  · intro h w hw
    obtain ⟨k, hm, rfl⟩ := (i.mem_warnings_iff _ targets).1 hw
    obtain ⟨hs, hn⟩ := (i.isAnchorMissing_insertionOf _ targets k).1 hm
    obtain ⟨a, ha⟩ := h k hs
    rw [hn] at ha
    cases ha

end Integrator

end Graft
