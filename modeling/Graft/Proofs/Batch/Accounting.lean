import Graft.Proofs.Batch.Accepted
import Mathlib.Data.List.Nodup

/-!
# What a batch accounts for

The parts of a batch's result are made by different loops: reports, counters, errors, warnings, and
the marks of kinds that were not spliced.  They agree with each other and with the documents.

* `run_sum`: a document is processed, skipped or cannot be read;
* `warnings_eq`: there is a warning for each kind that was missed, in the order of the kinds;
* `run_affected`: a warning names the processed documents that have a snippet of its kind;
* `mem_run_unspliced_iff`: a document is marked with the kinds of the warnings that name it;
* `run_accounted`: nothing is lost without a word.
-/

namespace Graft

open Splice

namespace RecordReport

/-- Whether a document that is processed has a snippet of a kind: an icon may be lacking. -/
def carries (r : RecordReport) : SnippetKind → Bool
  | .icon => r.icon.isSome
  | .importLine | .route | .listEntry => true

/-- The line says why the document of a report cannot be read. -/
def ErrorLine (line : String) (r : RecordReport) : Prop :=
  ∃ e, r.status = .failed e ∧ line = "module " ++ toString r.index ++ ": " ++ e.message

/-- A document is processed, skipped or cannot be read. -/
theorem countP_status (rs : List RecordReport) :
    rs.countP isProcessed + rs.countP isSkipped + rs.countP isFailed = rs.length := by
  induction rs with
  | nil => rfl
  | cons r rs ih =>
    have hone : (if r.isProcessed then 1 else 0) + (if r.isSkipped then 1 else 0) +
        (if r.isFailed then 1 else 0) = 1 := by
      obtain ⟨index, status, component, path, icon, unspliced⟩ := r
      cases status <;> rfl
    rw [List.countP_cons, List.countP_cons, List.countP_cons, List.length_cons]
    omega

end RecordReport

namespace Integrator

/-- Strategies are applied, kind after kind, to all the snippets of the kind: each to the text that
the one before it left in the same target.  `out` is what they answer. -/
structure Applied (i : Integrator) (snippets : SnippetKind → List Text) (before after : Targets)
    (out : SnippetKind → Insertion) : Prop where
  importLine : out .importLine = (i.strategy .importLine).apply before.router (snippets .importLine)
  route : out .route = (i.strategy .route).apply (out .importLine).text (snippets .route)
  icon : out .icon = (i.strategy .icon).apply before.listing (snippets .icon)
  listEntry : out .listEntry = (i.strategy .listEntry).apply (out .icon).text (snippets .listEntry)
  after : after = ⟨(out .route).text, (out .listEntry).text⟩

/-- The result of a batch accounts for all of its documents and all of their snippets. -/
structure Accounted (i : Integrator) (inputs : List Text) (targets : Targets)
    (result : BatchResult) : Prop where
  /-- Every document is reported on, under its place. -/
  places : result.records.map (·.index) = List.range' 1 inputs.length
  total : result.total = inputs.length
  sum : result.total = result.processed + result.skipped + result.errorCount
  processed : result.processed = result.records.countP RecordReport.isProcessed
  skipped : result.skipped = result.records.countP RecordReport.isSkipped
  /-- There is one line for each document that cannot be read. -/
  errors : List.Forall₂ RecordReport.ErrorLine result.errors
    (result.records.filter RecordReport.isFailed)
  /-- No kind has two warnings, and they come in the order in which kinds are patched. -/
  warnings : (result.warnings.map (·.kind)).Sublist SnippetKind.all
  /-- A warning names the registered strategy. -/
  strategy : ∀ w ∈ result.warnings, w.strategy = (i.strategy w.kind).name
  /-- A warning names all processed documents with a snippet of its kind, of which there are some. -/
  affected : ∀ w ∈ result.warnings, w.affected ≠ [] ∧ w.affected.Pairwise (· < ·) ∧
    w.affected = (result.records.filter fun r => r.isProcessed && r.carries w.kind).map (·.index)
  /-- A document is marked with the kinds of the warnings that name it. -/
  marks : ∀ r ∈ result.records, r.unspliced.Sublist SnippetKind.all ∧
    ∀ k, k ∈ r.unspliced ↔ ∃ w ∈ result.warnings, w.kind = k ∧ r.index ∈ w.affected
  unmarked : ∀ r ∈ result.records, r.isProcessed = false → r.unspliced = []
  /-- The snippets of the processed documents are spliced, but for the kinds with a warning. -/
  applied : ∃ out,
    i.Applied (fun k => (i.accepted targets inputs).filterMap (·.snippet? k)) targets
      result.targets out ∧
    ∀ k, (out k).outcome.isAnchorMissing ↔ ∃ w ∈ result.warnings, w.kind = k

/-! ## Marks -/

section
variable (warnings : List AnchorWarning)

/-- Marks change nothing that reports are told apart by. -/
theorem filter_markUnspliced {p : RecordReport → Bool}
    (hp : ∀ r, p (markUnspliced warnings r) = p r) (rs : List RecordReport) :
    (rs.map (markUnspliced warnings)).filter p = (rs.filter p).map (markUnspliced warnings) := by
  rw [List.filter_map]
  congr 1
  exact List.filter_congr fun r _ => hp r

theorem forall₂_errorLine (rs : List RecordReport) :
    List.Forall₂ RecordReport.ErrorLine (rs.filterMap errorLine?)
      ((rs.map (markUnspliced warnings)).filter RecordReport.isFailed) := by
  rw [filter_markUnspliced warnings fun _ => rfl]
  induction rs with
  | nil => exact .nil
  | cons r rs ih =>
    obtain ⟨index, status, component, path, icon, unspliced⟩ := r
    cases status with
    | processed => exact ih
    | skipped reason => exact ih
    | failed e => exact .cons ⟨e, rfl, rfl⟩ ih

theorem mem_markUnspliced_iff {r : RecordReport} {k : SnippetKind} :
    k ∈ (markUnspliced warnings r).unspliced ↔ ∃ w ∈ warnings, w.kind = k ∧ r.index ∈ w.affected := by
  simp only [markUnspliced, List.mem_map, List.mem_filter, List.contains_iff_mem]
  constructor
  · rintro ⟨w, ⟨hw, hr⟩, hk⟩
    exact ⟨w, hw, hk, hr⟩
  · rintro ⟨w, hw, hk, hr⟩
    exact ⟨w, ⟨hw, hr⟩, hk⟩

theorem unspliced_sublist (r : RecordReport) :
    (markUnspliced warnings r).unspliced.Sublist (warnings.map (·.kind)) :=
  List.filter_sublist.map _

end

/-! ## What is staged of the accepted records -/

theorem stagedOf_eq {rs : List Record} {staged : List Staged}
    (h : List.Forall₂ Stages rs staged) (k : SnippetKind) :
    stagedOf staged k = rs.filterMap fun r => (r.snippet? k).map fun t => (r.index, t) := by
  induction h with
  | nil => rfl
  | @cons r s rs staged hr _ ih =>
    unfold stagedOf at ih ⊢
    rw [List.filterMap_cons, List.filterMap_cons, ih, hr.get, hr.index]

theorem snippet?_isSome_eq_carries {r : Record} {snippets : CompleteSnippets}
    (h : Eligible r snippets) (k : SnippetKind) :
    (r.snippet? k).isSome = (RecordReport.ofRecord r .processed).carries k := by
  obtain ⟨hi, hp, he⟩ := complete_eq_ok_iff.1 h.complete
  cases k with
  | importLine => exact Option.isSome_of_eq_some hi
  | route => exact Option.isSome_of_eq_some hp
  | icon => rfl
  | listEntry => exact Option.isSome_of_eq_some he

/-- The documents that have staged snippets of a kind, in the words of their reports. -/
theorem stagedOf_map_fst {rs : List Record} {staged : List Staged}
    (h : List.Forall₂ Stages rs staged) (k : SnippetKind) :
    (stagedOf staged k).map (·.1) =
      ((rs.map (RecordReport.ofRecord · .processed)).filter (·.carries k)).map (·.index) := by
  induction h with
  | nil => rfl
  | @cons r s rs staged hr _ ih =>
    have hcarries := snippet?_isSome_eq_carries hr.eligible k
    unfold stagedOf at ih ⊢
    rw [List.filterMap_cons, hr.get, hr.index, List.map_cons, List.filter_cons, ← hcarries]
    cases r.snippet? k with
    | none => exact ih
    | some t => exact congrArg (r.index :: ·) ih

/-! ## Warnings -/

theorem strategy_apply (s : Strategy) (t : Text) (snippets : List Text) :
    (s.apply t snippets).strategy = s.name := by
  unfold Strategy.apply
  split
  · rfl
  · split
    · rfl
    · dsimp only
      split <;> rfl

variable (i : Integrator) (targets : Targets)

/-- There is a warning for each kind that was missed, in the order of the kinds. -/
theorem warnings_eq (staged : List Staged) :
    (i.patchAll staged targets).warnings =
      (SnippetKind.all.filter fun k =>
        (i.insertionOf staged targets k).outcome.isAnchorMissing).map
          (i.missed staged targets) := by
  rw [patchAll_eq]
  dsimp only
  generalize SnippetKind.all = kinds
  induction kinds with
  | nil => rfl
  | cons k kinds ih =>
    rw [List.flatMap_cons, ih, warningOf, List.filter_cons]
    split <;> rfl

variable (inputs : List Text)

/-- The warnings of a run are about the kinds that were missed. -/
theorem mem_run_warnings_iff {w : AnchorWarning} :
    w ∈ (i.run inputs targets).warnings ↔
      ∃ k, (i.insertionOf (i.filter targets inputs).staged targets k).outcome.isAnchorMissing ∧
        w = i.missed (i.filter targets inputs).staged targets k :=
  i.mem_warnings_iff (i.filter targets inputs).staged targets

/-- No kind has two warnings, and they come in the order in which kinds are patched. -/
theorem run_kinds : ((i.run inputs targets).warnings.map (·.kind)).Sublist SnippetKind.all := by
  simp only [run, warnings_eq, List.map_map]
  have hid : (fun w : AnchorWarning => w.kind) ∘
      i.missed (i.filter targets inputs).staged targets = id := rfl
  rw [hid, List.map_id]
  exact List.filter_sublist

/-- The documents whose snippets of a kind are staged, in the words of a run's reports. -/
theorem affected_eq (k : SnippetKind) :
    (stagedOf (i.filter targets inputs).staged k).map (·.1) =
      ((i.run inputs targets).records.filter fun r => r.isProcessed && r.carries k).map
        (·.index) := by
  have hcarries : ∀ ws r, (markUnspliced ws r).carries k = r.carries k := by
    intro ws r
    cases k <;> rfl
  have hkept : ∀ ws r, ((markUnspliced ws r).carries k && (markUnspliced ws r).isProcessed) =
      (r.carries k && r.isProcessed) := by
    intro ws r
    rw [hcarries]
    rfl
  rw [stagedOf_map_fst (i.stages_accepted targets inputs), ← filter_isProcessed,
    List.filter_filter]
  simp only [run, Bool.and_comm (RecordReport.isProcessed _)]
  rw [@filter_markUnspliced _ (fun r => r.carries k && r.isProcessed) (hkept _), List.map_map]
  rfl

theorem run_places : (i.run inputs targets).records.map (·.index) = List.range' 1 inputs.length := by
  rw [run_map_index]
  exact (i.filterFrom_index targets ⟨[], []⟩ 1 inputs rfl).1

/-- Reports on different documents have different places. -/
theorem eq_of_index_eq {r r' : RecordReport} (hr : r ∈ (i.run inputs targets).records)
    (hr' : r' ∈ (i.run inputs targets).records) (h : r.index = r'.index) : r = r' := by
  have hnodup : ((i.run inputs targets).records.map (·.index)).Nodup := by
    rw [run_places]
    exact List.nodup_range'
  exact List.inj_on_of_nodup_map hnodup hr hr' h

/-! ## Counters -/

/-- Marks change no count of reports. -/
theorem countP_run_records {p : RecordReport → Bool}
    (hp : ∀ ws r, p (markUnspliced ws r) = p r) :
    (i.run inputs targets).records.countP p = (i.filter targets inputs).records.countP p := by
  simp only [run, List.countP_map]
  exact List.countP_congr fun r _ => by rw [Function.comp_apply, hp]

theorem run_processed :
    (i.run inputs targets).processed =
      (i.run inputs targets).records.countP RecordReport.isProcessed :=
  (i.countP_run_records targets inputs fun _ _ => rfl).symm

theorem run_skipped :
    (i.run inputs targets).skipped = (i.run inputs targets).records.countP RecordReport.isSkipped :=
  (i.countP_run_records targets inputs fun _ _ => rfl).symm

theorem run_sum :
    (i.run inputs targets).total = (i.run inputs targets).processed +
      (i.run inputs targets).skipped + (i.run inputs targets).errorCount := by
  have hlength := congrArg List.length (i.run_places targets inputs)
  rw [List.length_map, List.length_range'] at hlength
  have hsum := RecordReport.countP_status (i.run inputs targets).records
  rw [hlength] at hsum
  rw [run_processed, run_skipped]
  exact hsum.symm

/-! ## Warnings and marks of a run -/

section
variable {w : AnchorWarning} {r : RecordReport}

theorem run_strategy (hw : w ∈ (i.run inputs targets).warnings) :
    w.strategy = (i.strategy w.kind).name := by
  obtain ⟨k, -, rfl⟩ := (i.mem_run_warnings_iff targets inputs).1 hw
  exact strategy_apply _ _ _

/-- A warning names the processed documents with a snippet of its kind. -/
theorem run_affected (hw : w ∈ (i.run inputs targets).warnings) :
    w.affected = ((i.run inputs targets).records.filter fun r =>
      r.isProcessed && r.carries w.kind).map (·.index) := by
  obtain ⟨k, -, rfl⟩ := (i.mem_run_warnings_iff targets inputs).1 hw
  exact i.affected_eq targets inputs k

theorem run_affected_ne_nil (hw : w ∈ (i.run inputs targets).warnings) : w.affected ≠ [] := by
  obtain ⟨k, hmissing, rfl⟩ := (i.mem_run_warnings_iff targets inputs).1 hw
  have hsome := ((i.isAnchorMissing_insertionOf _ _ _).1 hmissing).1
  intro hnil
  exact hsome (List.map_eq_nil_iff.2 (List.map_eq_nil_iff.1 hnil))

theorem run_affected_pairwise (hw : w ∈ (i.run inputs targets).warnings) :
    w.affected.Pairwise (· < ·) := by
  rw [i.run_affected targets inputs hw]
  refine List.Pairwise.sublist (List.filter_sublist.map _) ?_
  rw [run_places]
  exact List.pairwise_lt_range'

/-- A document is marked with the kinds of the warnings that name it. -/
theorem mem_run_unspliced_iff (hr : r ∈ (i.run inputs targets).records) {k : SnippetKind} :
    k ∈ r.unspliced ↔
      ∃ w ∈ (i.run inputs targets).warnings, w.kind = k ∧ r.index ∈ w.affected := by
  obtain ⟨r, -, rfl⟩ := List.mem_map.1 hr
  exact mem_markUnspliced_iff _

theorem run_unspliced_sublist (hr : r ∈ (i.run inputs targets).records) :
    r.unspliced.Sublist SnippetKind.all := by
  obtain ⟨r, -, rfl⟩ := List.mem_map.1 hr
  exact (unspliced_sublist _ r).trans (i.run_kinds targets inputs)

theorem run_unspliced_eq_nil (hr : r ∈ (i.run inputs targets).records)
    (hnot : r.isProcessed = false) : r.unspliced = [] := by
  refine List.eq_nil_iff_forall_not_mem.2 fun k hk => ?_
  obtain ⟨w, hw, -, hmem⟩ := (i.mem_run_unspliced_iff targets inputs hr).1 hk
  rw [i.run_affected targets inputs hw] at hmem
  obtain ⟨r', hr', hindex⟩ := List.mem_map.1 hmem
  obtain ⟨hr', hcarries⟩ := List.mem_filter.1 hr'
  obtain rfl := i.eq_of_index_eq targets inputs hr' hr hindex
  rw [hnot] at hcarries
  cases hcarries

end

/-! ## Snippets of a run -/

theorem snippetsOf_accepted (k : SnippetKind) :
    snippetsOf (i.filter targets inputs).staged k =
      (i.accepted targets inputs).filterMap (·.snippet? k) := by
  rw [snippetsOf, stagedOf_eq (i.stages_accepted targets inputs), List.map_filterMap]
  refine List.filterMap_congr fun r _ => ?_
  cases r.snippet? k <;> rfl

/-- The kinds are patched in their order, each with the snippets of the accepted records. -/
theorem applied_insertionOf :
    i.Applied (fun k => (i.accepted targets inputs).filterMap (·.snippet? k)) targets
      (i.run inputs targets).targets (i.insertionOf (i.filter targets inputs).staged targets) := by
  have hsnippets := i.snippetsOf_accepted targets inputs
  refine ⟨?_, ?_, ?_, ?_, ?_⟩
  · exact congrArg _ (hsnippets .importLine)
  · exact congrArg _ (hsnippets .route)
  · exact congrArg _ (hsnippets .icon)
  · exact congrArg _ (hsnippets .listEntry)
  · rw [run, patchAll_eq]

/-- A kind is missed exactly when there is a warning about it. -/
theorem isAnchorMissing_iff_warning (k : SnippetKind) :
    (i.insertionOf (i.filter targets inputs).staged targets k).outcome.isAnchorMissing ↔
      ∃ w ∈ (i.run inputs targets).warnings, w.kind = k := by
  constructor
  · intro hmissing
    exact ⟨_, (i.mem_run_warnings_iff targets inputs).2 ⟨k, hmissing, rfl⟩, rfl⟩
  · rintro ⟨w, hw, rfl⟩
    obtain ⟨k, hmissing, rfl⟩ := (i.mem_run_warnings_iff targets inputs).1 hw
    exact hmissing

/-- **Nothing is lost without a word.**  The counters, errors, warnings and marks of a run agree with
its reports, and every snippet of a processed document is spliced by the registered strategy or named
in a warning. -/
theorem run_accounted : i.Accounted inputs targets (i.run inputs targets) where
  places := i.run_places targets inputs
  total := rfl
  sum := i.run_sum targets inputs
  processed := i.run_processed targets inputs
  skipped := i.run_skipped targets inputs
  errors := forall₂_errorLine _ _
  warnings := i.run_kinds targets inputs
  strategy := by
    intro w hw
    exact i.run_strategy targets inputs hw
  affected := by
    intro w hw
    exact ⟨i.run_affected_ne_nil targets inputs hw, i.run_affected_pairwise targets inputs hw,
      i.run_affected targets inputs hw⟩
  marks := by
    intro r hr
    exact ⟨i.run_unspliced_sublist targets inputs hr, fun _ =>
      i.mem_run_unspliced_iff targets inputs hr⟩
  unmarked := by
    intro r hr hnot
    exact i.run_unspliced_eq_nil targets inputs hr hnot
  applied :=
    ⟨_, i.applied_insertionOf targets inputs, i.isAnchorMissing_iff_warning targets inputs⟩

end Integrator

end Graft
