import Graft.Proofs.Batch.Duplicate
import Graft.Proofs.Batch.Isolation
import Mathlib.Data.List.Forall2

/-!
# The records that a batch accepts

`accepted` lists the records whose documents a batch reports as processed.  What is staged, and what
is reported of those documents, comes from these records alone.

* `step_cases`: a document is accepted, with all that follows from that, or leaves nothing behind;
* `stages_accepted`: the staged snippets are those of the accepted records;
* `filter_isProcessed`: the reports on processed documents are those on the accepted records;
* `accepted_index`: the accepted records stand in the order of their documents;
* `mem_accepted_iff`: a record is accepted exactly when its document is reported as processed;
* `accepted_pairwise`: no route shows the path of a route that is accepted after it.
-/

namespace Graft

open Splice Text

namespace Record

/-- The snippet of a kind that a record carries, if it does. -/
def snippet? (r : Record) : SnippetKind → Option Text
  | .importLine => r.importSnippet
  | .route => r.routeSnippet
  | .icon => r.icon
  | .listEntry => r.entrySnippet

/-- The route of record `q` shows the path of the route of record `r`. -/
def ShowsRoute (q r : Record) : Prop :=
  ∃ t p, q.routeSnippet = some t ∧ r.routePath = some p ∧ contains (Metadata.routeAttribute p) t

end Record

namespace Integrator

/-- The staged snippets are those of a record. -/
structure Stages (r : Record) (s : Staged) : Prop where
  eligible : Eligible r s.snippets
  index : s.index = r.index
  icon : s.icon = r.icon

theorem complete_eq_ok_iff {r : Record} {snippets : CompleteSnippets} :
    r.complete = .ok snippets ↔
      r.importSnippet = some snippets.importLine ∧ r.routeSnippet = some snippets.route ∧
        r.entrySnippet = some snippets.entry := by
  unfold Record.complete
  split
  · rename_i i p e hi hp he
    rw [hi, hp, he, Except.ok.injEq, Option.some.injEq, Option.some.injEq, Option.some.injEq]
    constructor
    · rintro rfl
      exact ⟨rfl, rfl, rfl⟩
    · rintro ⟨rfl, rfl, rfl⟩
      rfl
  · rename_i hnot
    constructor
    · intro h
      cases h
    · rintro ⟨hi, hp, he⟩
      exact absurd he (hnot _ _ _ hi hp)

theorem Stages.get {r : Record} {s : Staged} (h : Stages r s) (k : SnippetKind) :
    s.get k = r.snippet? k := by
  obtain ⟨hi, hp, he⟩ := complete_eq_ok_iff.1 h.eligible.complete
  cases k with
  | importLine => exact hi.symm
  | route => exact hp.symm
  | icon => exact h.icon
  | listEntry => exact he.symm

/-- A route path is staged exactly when the route of a record shows it. -/
theorem stagedAmong_iff {rs : List Record} {staged : List Staged}
    (h : List.Forall₂ Stages rs staged) (r : Record) :
    DuplicateRule.StagedAmong r (staged.map (·.snippets.route)) ↔ ∃ q ∈ rs, q.ShowsRoute r := by
  have hcons : ∀ t ts, DuplicateRule.StagedAmong r (t :: ts) ↔
      (∃ p, r.routePath = some p ∧ contains (Metadata.routeAttribute p) t) ∨
        DuplicateRule.StagedAmong r ts := by
    intro t ts
    simp only [DuplicateRule.StagedAmong, List.mem_cons, exists_eq_or_imp, and_or_left, exists_or]
  induction h with
  | nil => simp [DuplicateRule.StagedAmong]
  | @cons q s rs staged hq _ ih =>
    obtain ⟨-, hroute, -⟩ := complete_eq_ok_iff.1 hq.eligible.complete
    rw [List.map_cons, hcons]
    refine (or_congr_right ih).trans ?_
    simp only [List.mem_cons, exists_eq_or_imp, Record.ShowsRoute, hroute, Option.some.injEq,
      exists_and_left, exists_eq_left']

variable (i : Integrator) (targets : Targets)

/-- The records that reports say are processed, each read at the place that its report names. -/
def acceptedOf (inputs : List Text) (reports : List RecordReport) : List Record :=
  (inputs.zip reports).filterMap fun p =>
    if p.2.isProcessed then (i.read p.2.index p.1).toOption else none

/-- The records of the documents that a batch processes, in their order. -/
def accepted (inputs : List Text) : List Record :=
  i.acceptedOf inputs (i.run inputs targets).records

/-! ## One document -/

/-- The record of a document that is processed, when some snippets are staged before it. -/
def acceptedAt (staged : List Staged) (index : Nat) (input : Text) : Option Record :=
  if (i.report targets staged index input).isProcessed then (i.read index input).toOption else none

/-- A document is read as record `r` and stages the snippets `s`. -/
structure Accepts (staged : List Staged) (index : Nat) (input : Text) (r : Record) (s : Staged) :
    Prop where
  read : i.read index input = .ok r
  stages : Stages r s
  new : DuplicateRule.find? targets (staged.map (·.snippets.route)) r = none
  accepted : i.acceptedAt targets staged index input = some r
  admitted : i.admitted targets staged index input = [s]
  report : i.report targets staged index input = .ofRecord r .processed

/-- A document is accepted, or leaves nothing behind. -/
theorem step_cases (staged : List Staged) (index : Nat) (input : Text) :
    (∃ r s, i.Accepts targets staged index input r s) ∨
      (i.report targets staged index input).isProcessed = false ∧
        i.acceptedAt targets staged index input = none ∧
        i.admitted targets staged index input = [] := by
  cases hp : (i.report targets staged index input).isProcessed with
  | false =>
    refine .inr ⟨rfl, ?_, i.admitted_of_not_processed targets hp⟩
    rw [acceptedAt, hp]
    rfl
  | true =>
    obtain ⟨r, snippets, hread, he, hreport, hadmitted⟩ :=
      i.report_processed (RecordReport.isProcessed_iff.1 hp)
    refine .inl ⟨r, ⟨r.index, snippets, r.icon⟩, hread, ⟨he, rfl, rfl⟩, ?_, ?_, hadmitted, hreport⟩
    · rw [i.report_of_eligible hread he] at hreport
      split at hreport
      · cases hreport
      · assumption
    · rw [acceptedAt, hp, hread]
      rfl

/-! ## Document after document -/

theorem accepted_eq (inputs : List Text) :
    i.accepted targets inputs = i.acceptedOf inputs (i.filter targets inputs).records := by
  simp only [accepted, acceptedOf, run, List.zip_map_right, List.filterMap_map]
  rfl

theorem accepted_concat (inputs : List Text) (input : Text) :
    i.accepted targets (inputs ++ [input]) =
      i.accepted targets inputs ++
        (i.acceptedAt targets (i.filter targets inputs).staged (inputs.length + 1) input).toList := by
  rw [accepted_eq, accepted_eq, filter_concat, step_eq]
  have hlen := (i.length_records targets inputs).symm
  simp only [acceptedOf, List.zip_append hlen, List.filterMap_append]
  congr 1
  simp only [List.zip_cons_cons, List.zip_nil_right, List.filterMap_cons, List.filterMap_nil,
    report_index, acceptedAt]
  split
  · rename_i h
    rw [h]
    rfl
  · rename_i h
    rw [h]
    rfl

/-- The staged snippets are those of the accepted records. -/
theorem stages_accepted (inputs : List Text) :
    List.Forall₂ Stages (i.accepted targets inputs) (i.filter targets inputs).staged := by
  induction inputs using List.reverseRecOn with
  | nil => exact .nil
  | append_singleton inputs input ih =>
    rw [accepted_concat, filter_concat, step_eq]
    refine List.rel_append ih ?_
    rcases i.step_cases targets (i.filter targets inputs).staged (inputs.length + 1) input with
      ⟨r, s, h⟩ | ⟨-, haccepted, hadmitted⟩
    · rw [h.accepted, h.admitted]
      exact .cons h.stages .nil
    · rw [haccepted, hadmitted]
      exact .nil

/-- The reports on processed documents are those on the accepted records. -/
theorem filter_isProcessed (inputs : List Text) :
    (i.filter targets inputs).records.filter (·.isProcessed) =
      (i.accepted targets inputs).map (RecordReport.ofRecord · .processed) := by
  induction inputs using List.reverseRecOn with
  | nil => rfl
  | append_singleton inputs input ih =>
    rw [accepted_concat, filter_concat, step_eq, List.filter_append, List.map_append, ih]
    congr 1
    rcases i.step_cases targets (i.filter targets inputs).staged (inputs.length + 1) input with
      ⟨r, s, h⟩ | ⟨hreport, haccepted, -⟩
    · rw [h.accepted, h.report]
      rfl
    · rw [haccepted, List.filter_cons_of_neg (by rw [hreport]; decide)]
      rfl

/-- The places of the accepted records increase. -/
theorem accepted_index (inputs : List Text) :
    (i.accepted targets inputs).Pairwise fun q r => q.index < r.index := by
  have hplaces := (i.filterFrom_index targets ⟨[], []⟩ 1 inputs rfl).1
  rw [List.map_nil, List.nil_append] at hplaces
  have hall : (((i.filter targets inputs).records).map (·.index)).Pairwise (· < ·) := by
    rw [filter, hplaces]
    exact List.pairwise_lt_range'
  have hprocessed := (List.pairwise_map.1 hall).filter (·.isProcessed)
  rw [filter_isProcessed, List.pairwise_map] at hprocessed
  exact hprocessed

/-- No route shows the path of a route that is accepted after it. -/
theorem accepted_pairwise (inputs : List Text) :
    (i.accepted targets inputs).Pairwise fun q r => ¬ q.ShowsRoute r := by
  induction inputs using List.reverseRecOn with
  | nil => exact .nil
  | append_singleton inputs input ih =>
    rw [accepted_concat, List.pairwise_append]
    refine ⟨ih, ?_, ?_⟩
    · cases i.acceptedAt targets (i.filter targets inputs).staged (inputs.length + 1) input with
      | none => exact .nil
      | some r => exact List.pairwise_singleton _ r
    · intro q hq r' hr'
      rcases i.step_cases targets (i.filter targets inputs).staged (inputs.length + 1) input with
        ⟨r, s, h⟩ | ⟨-, haccepted, -⟩
      · rw [h.accepted] at hr'
        obtain rfl := List.mem_singleton.1 hr'
        intro hshows
        have hstaged := (stagedAmong_iff (i.stages_accepted targets inputs) r').2 ⟨q, hq, hshows⟩
        have hsome := (@DuplicateRule.isSome_find?_iff targets _ r').2 (.inr (.inr hstaged))
        rw [h.new] at hsome
        cases hsome
      · rw [haccepted] at hr'
        cases hr'

/-! ## Which records are accepted -/

/-- A record is accepted exactly when its document is reported as processed. -/
theorem mem_accepted_iff {inputs : List Text} {r : Record} :
    r ∈ i.accepted targets inputs ↔
      ∃ k input, inputs[k]? = some input ∧ i.read (k + 1) input = .ok r ∧
        (i.report targets (i.stagedBefore targets inputs k) (k + 1) input).isProcessed := by
  rw [accepted_eq, acceptedOf, List.mem_filterMap]
  constructor
  · rintro ⟨⟨input, report⟩, hmem, hr⟩
    obtain ⟨k, hk⟩ := List.mem_iff_getElem?.1 hmem
    obtain ⟨hinput, hreport⟩ := List.getElem?_zip_eq_some.1 hk
    dsimp only at hinput hreport hr
    rw [records_getElem?, hinput] at hreport
    obtain rfl := Option.some.inj hreport
    rw [report_index] at hr
    split at hr
    · rename_i hp
      cases hread : i.read (k + 1) input with
      | error e =>
        rw [hread] at hr
        cases hr
      | ok r' =>
        rw [hread] at hr
        obtain rfl := Option.some.inj hr
        exact ⟨k, input, hinput, hread, hp⟩
    · cases hr
  · rintro ⟨k, input, hinput, hread, hp⟩
    refine ⟨⟨input, i.report targets (i.stagedBefore targets inputs k) (k + 1) input⟩, ?_, ?_⟩
    · refine List.mem_iff_getElem?.2 ⟨k, List.getElem?_zip_eq_some.2 ⟨hinput, ?_⟩⟩
      rw [records_getElem?, hinput]
      rfl
    · dsimp only
      rw [if_pos hp, report_index, hread]
      rfl

theorem read_index {index : Nat} {input : Text} {r : Record} (h : i.read index input = .ok r) :
    r.index = index := by
  obtain ⟨d, rfl⟩ := i.read_eq_ok h
  rfl

/-- The records accepted before a place are those accepted of the documents before it. -/
theorem mem_accepted_take_iff {inputs : List Text} {k : Nat} {r : Record} :
    r ∈ i.accepted targets (inputs.take k) ↔ r ∈ i.accepted targets inputs ∧ r.index ≤ k := by
  have hbefore : ∀ m, m < k →
      i.stagedBefore targets (inputs.take k) m = i.stagedBefore targets inputs m := by
    intro m hm
    rw [stagedBefore, stagedBefore, List.take_take, Nat.min_eq_left (Nat.le_of_lt hm)]
  rw [mem_accepted_iff, mem_accepted_iff]
  constructor
  · rintro ⟨m, input, hinput, hread, hp⟩
    rw [List.getElem?_take] at hinput
    obtain ⟨hm, hinput'⟩ := Option.ite_none_right_eq_some.1 hinput
    rw [hbefore m hm] at hp
    refine ⟨⟨m, input, hinput', hread, hp⟩, ?_⟩
    rw [i.read_index hread]
    omega
  · rintro ⟨⟨m, input, hinput, hread, hp⟩, hle⟩
    rw [i.read_index hread] at hle
    have hm : m < k := by omega
    refine ⟨m, input, ?_, hread, ?_⟩
    · rw [List.getElem?_take_of_lt hm]
      exact hinput
    · rwa [hbefore m hm]

end Integrator

end Graft
