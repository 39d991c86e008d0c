import Graft.Batch.Run

/-!
# Reading the documents of a batch

What is reported about a document depends on the targets, the document and the snippets staged
before it.

* `records_getElem?`: the report on each document, from the snippets staged before it;
* `filter_take_prefix`: staged snippets stay staged;
* `report_processed`: a document that is reported as processed has its snippets staged;
* `report_of_eligible`: of a record that is complete, only the duplicate rules decide.
-/

namespace Graft

open Splice

theorem RecordReport.rule?_eq_some_iff {report : RecordReport} {rule : DuplicateRule} :
    report.rule? = some rule ↔ report.status = .skipped (.duplicate rule) := by
  unfold rule?
  split
  · rename_i hs
    rw [hs, Option.some.injEq, Status.skipped.injEq, SkipReason.duplicate.injEq]
  · rename_i hs
    constructor
    · intro h
      cases h
    · intro h
      exact absurd h (hs rule)

namespace Integrator

/-! ## What decides about a record -/

/-- Nothing but the duplicate rules stands against staging the record. -/
structure Eligible (r : Record) (snippets : CompleteSnippets) : Prop where
  present : r.hasNoSnippets = false
  complete : r.complete = .ok snippets
  named : r.component.isSome

variable (i : Integrator) {targets : Targets} {staged : List Staged} {r : Record}
  {snippets : CompleteSnippets}

/-- Of an eligible record only the duplicate rules decide. -/
theorem accept_of_eligible (h : Eligible r snippets) :
    accept targets staged r =
      match DuplicateRule.find? targets (staged.map (·.snippets.route)) r with
      | some rule => .error (.duplicate rule)
      | none => .ok ⟨r.index, snippets, r.icon⟩ := by
  have hn : r.component.isNone = false := by
    rw [← Option.not_isSome, h.named]
    rfl
  unfold accept
  rw [h.present, h.complete, hn]
  cases DuplicateRule.find? targets (staged.map (·.snippets.route)) r <;> rfl

/-- A record is eligible, or is refused whatever the duplicate rules say. -/
theorem eligible_or_refused (targets : Targets) (staged : List Staged) (r : Record) :
    (∃ snippets, Eligible r snippets) ∨
      ∃ reason, accept targets staged r = .error reason ∧ ∀ rule, reason ≠ .duplicate rule := by
  unfold accept
  split
  · exact .inr ⟨_, rfl, fun rule => by simp⟩
  · rename_i hp
    split
    · exact .inr ⟨_, rfl, fun rule => by simp⟩
    · rename_i snippets hc
      split
      · exact .inr ⟨_, rfl, fun rule => by simp⟩
      · rename_i hn
        exact .inl ⟨snippets, by simpa using hp, hc,
          Option.isSome_iff_ne_none.2 (by simpa using hn)⟩

theorem eligible_of_accept {s : Staged} (h : accept targets staged r = .ok s) :
    ∃ snippets, Eligible r snippets ∧ s = ⟨r.index, snippets, r.icon⟩ := by
  rcases eligible_or_refused targets staged r with ⟨snippets, he⟩ | ⟨reason, hr, _⟩
  · rw [accept_of_eligible he] at h
    split at h
    · cases h
    · exact ⟨snippets, he, (Except.ok.inj h).symm⟩
  · rw [hr] at h
    cases h

theorem eligible_of_duplicate {rule : DuplicateRule}
    (h : accept targets staged r = .error (.duplicate rule)) :
    ∃ snippets, Eligible r snippets ∧
      DuplicateRule.find? targets (staged.map (·.snippets.route)) r = some rule := by
  rcases eligible_or_refused targets staged r with ⟨snippets, he⟩ | ⟨reason, hr, hne⟩
  · rw [accept_of_eligible he] at h
    split at h
    · rename_i rule' hd
      cases h
      exact ⟨snippets, he, hd⟩
    · cases h
  · rw [hr] at h
    exact absurd (Except.error.inj h) (hne rule)

theorem read_eq_ok {index : Nat} {input : Text} (h : i.read index input = .ok r) :
    ∃ d : Document, r = Record.ofDocument index d := by
  unfold read at h
  cases hd : Document.parse (if i.config.sanitizeInput then Document.unwrap input else input) with
  | error e => rw [hd] at h; cases h
  | ok d => rw [hd] at h; cases h; exact ⟨d, rfl⟩

/-! ## Document after document -/

variable (targets)

/-- The report on a document, when some snippets are staged before it. -/
def report (staged : List Staged) (index : Nat) (input : Text) : RecordReport :=
  match i.read index input with
  | .error e => { index, status := .failed e }
  | .ok r =>
    match accept targets staged r with
    | .error reason => .ofRecord r (.skipped reason)
    | .ok _ => .ofRecord r .processed

/-- The snippets of a document that are staged, when some are staged before it. -/
def admitted (staged : List Staged) (index : Nat) (input : Text) : List Staged :=
  match i.read index input with
  | .error _ => []
  | .ok r =>
    match accept targets staged r with
    | .error _ => []
    | .ok s => [s]

theorem step_eq (p : Progress) (index : Nat) (input : Text) :
    i.step targets p index input =
      ⟨p.staged ++ i.admitted targets p.staged index input,
        p.records ++ [i.report targets p.staged index input]⟩ := by
  unfold step report admitted
  cases i.read index input with
  | error e => simp
  | ok r =>
    dsimp only
    cases accept targets p.staged r <;> simp

theorem filterFrom_append (p : Progress) (n : Nat) (xs ys : List Text) :
    i.filterFrom targets p n (xs ++ ys) =
      i.filterFrom targets (i.filterFrom targets p n xs) (n + xs.length) ys := by
  induction xs generalizing p n with
  | nil => rfl
  | cons x xs ih =>
    simp only [List.cons_append, filterFrom, ih, List.length_cons, Nat.add_assoc, Nat.add_comm 1]

theorem filter_concat (xs : List Text) (x : Text) :
    i.filter targets (xs ++ [x]) = i.step targets (i.filter targets xs) (xs.length + 1) x := by
  simp only [filter, filterFrom_append, filterFrom, Nat.add_comm]

theorem filter_take_succ {inputs : List Text} {k : Nat} {input : Text}
    (h : inputs[k]? = some input) :
    i.filter targets (inputs.take (k + 1)) =
      i.step targets (i.filter targets (inputs.take k)) (k + 1) input := by
  obtain ⟨hk, rfl⟩ := List.getElem?_eq_some_iff.1 h
  rw [List.take_add_one, h, Option.toList_some, filter_concat, List.length_take,
    Nat.min_eq_left (Nat.le_of_lt hk)]

/-- The reports and the staged snippets of a batch that is read further only grow. -/
theorem filterFrom_prefix (p : Progress) (n : Nat) (xs : List Text) :
    p.records <+: (i.filterFrom targets p n xs).records ∧
      p.staged <+: (i.filterFrom targets p n xs).staged := by
  induction xs generalizing p n with
  | nil => exact ⟨List.prefix_rfl, List.prefix_rfl⟩
  | cons x xs ih =>
    obtain ⟨hr, hs⟩ := ih (i.step targets p n x) (n + 1)
    refine ⟨List.IsPrefix.trans ?_ hr, List.IsPrefix.trans ?_ hs⟩
    · rw [step_eq]; exact List.prefix_append _ _
    · rw [step_eq]; exact List.prefix_append _ _

theorem filter_take_prefix (inputs : List Text) (k : Nat) :
    (i.filter targets (inputs.take k)).records <+: (i.filter targets inputs).records ∧
      (i.filter targets (inputs.take k)).staged <+: (i.filter targets inputs).staged := by
  have h := i.filterFrom_prefix targets (i.filter targets (inputs.take k))
    (1 + (inputs.take k).length) (inputs.drop k)
  rwa [filter, ← filterFrom_append, List.take_append_drop] at h

theorem length_records_filterFrom (p : Progress) (n : Nat) (xs : List Text) :
    (i.filterFrom targets p n xs).records.length = p.records.length + xs.length := by
  induction xs generalizing p n with
  | nil => rfl
  | cons x xs ih =>
    rw [filterFrom, ih, step_eq]
    simp only [List.length_append, List.length_cons, List.length_nil]
    omega

theorem length_records (inputs : List Text) :
    (i.filter targets inputs).records.length = inputs.length := by
  rw [filter, length_records_filterFrom]
  simp

theorem report_index (staged : List Staged) (index : Nat) (input : Text) :
    (i.report targets staged index input).index = index := by
  unfold report
  cases hr : i.read index input with
  | error e => rfl
  | ok r =>
    obtain ⟨d, rfl⟩ := i.read_eq_ok hr
    dsimp only
    cases accept targets staged (Record.ofDocument index d) <;> rfl

theorem admitted_index (staged : List Staged) (index : Nat) (input : Text) :
    (i.admitted targets staged index input).map (·.index) =
      ([i.report targets staged index input].filter (·.isProcessed)).map (·.index) := by
  unfold report admitted
  cases hr : i.read index input with
  | error e => rfl
  | ok r =>
    dsimp only
    cases ha : accept targets staged r with
    | error reason => rfl
    | ok s =>
      obtain ⟨snippets, _, rfl⟩ := eligible_of_accept ha
      rfl

/-- Documents are reported on, and their snippets staged, in the order of the batch. -/
theorem filterFrom_index (p : Progress) (n : Nat) (xs : List Text)
    (hp : p.staged.map (·.index) = (p.records.filter (·.isProcessed)).map (·.index)) :
    (i.filterFrom targets p n xs).records.map (·.index) =
        p.records.map (·.index) ++ List.range' n xs.length ∧
      (i.filterFrom targets p n xs).staged.map (·.index) =
        ((i.filterFrom targets p n xs).records.filter (·.isProcessed)).map (·.index) := by
  induction xs generalizing p n with
  | nil => exact ⟨by simp [filterFrom], hp⟩
  | cons x xs ih =>
    have hstep : (i.step targets p n x).staged.map (·.index) =
        ((i.step targets p n x).records.filter (·.isProcessed)).map (·.index) := by
      rw [step_eq, List.map_append, List.filter_append, List.map_append, hp, admitted_index]
    obtain ⟨hr, hs⟩ := ih (i.step targets p n x) (n + 1) hstep
    refine ⟨?_, hs⟩
    rw [filterFrom, hr, step_eq, List.map_append, List.map_singleton, report_index,
      List.append_assoc, List.length_cons, List.range'_succ, List.singleton_append]

/-- What is staged are the snippets of an eligible record. -/
theorem mem_staged_filterFrom {p : Progress} {n : Nat} {xs : List Text} {s : Staged}
    (hs : s ∈ (i.filterFrom targets p n xs).staged) :
    s ∈ p.staged ∨ ∃ index input r, i.read index input = .ok r ∧ Eligible r s.snippets ∧
      s.icon = r.icon := by
  induction xs generalizing p n with
  | nil => exact .inl hs
  | cons x xs ih =>
    rcases ih hs with hs | hs
    · rw [step_eq, List.mem_append] at hs
      refine hs.imp_right fun hs => ?_
      unfold admitted at hs
      cases hr : i.read n x with
      | error e => simp [hr] at hs
      | ok r =>
        rw [hr] at hs
        dsimp only at hs
        cases ha : accept targets p.staged r with
        | error reason => simp [ha] at hs
        | ok s' =>
          rw [ha] at hs
          obtain rfl := List.mem_singleton.1 hs
          obtain ⟨snippets, he, rfl⟩ := eligible_of_accept ha
          exact ⟨n, x, r, hr, he, rfl⟩
    · exact .inr hs

/-- The snippets staged before a document. -/
def stagedBefore (inputs : List Text) (k : Nat) : List Staged :=
  (i.filter targets (inputs.take k)).staged

theorem records_getElem? (inputs : List Text) (k : Nat) :
    (i.filter targets inputs).records[k]? =
      inputs[k]?.map (i.report targets (i.stagedBefore targets inputs k) (k + 1)) := by
  cases h : inputs[k]? with
  | none =>
    rw [Option.map_none, List.getElem?_eq_none_iff, length_records]
    exact List.getElem?_eq_none_iff.1 h
  | some input =>
    have hk : (inputs.take k).length = k := by
      have := (List.getElem?_eq_some_iff.1 h).1
      rw [List.length_take]
      omega
    obtain ⟨rest, hrest⟩ := (i.filter_take_prefix targets inputs (k + 1)).1
    rw [← hrest, filter_take_succ i targets h, step_eq, List.append_assoc,
      List.getElem?_append_right (Nat.le_of_eq (by rw [length_records, hk])),
      length_records, hk]
    simp [stagedBefore]

theorem admitted_subset_staged {inputs : List Text} {k : Nat} {input : Text}
    (h : inputs[k]? = some input) {s : Staged}
    (hs : s ∈ i.admitted targets (i.stagedBefore targets inputs k) (k + 1) input) :
    s ∈ (i.filter targets inputs).staged := by
  refine (i.filter_take_prefix targets inputs (k + 1)).2.subset ?_
  rw [filter_take_succ i targets h, step_eq]
  exact List.mem_append_right _ hs

theorem stagedBefore_subset (inputs : List Text) (k : Nat) {s : Staged}
    (hs : s ∈ i.stagedBefore targets inputs k) : s ∈ (i.filter targets inputs).staged :=
  (i.filter_take_prefix targets inputs k).2.subset hs

/-! ## What a report says about a record -/

variable {targets}

/-- The metadata of a complete record is that of its snippets. -/
structure Derived (index : Nat) (r : Record) (snippets : CompleteSnippets) : Prop where
  index : r.index = index
  component : r.component = Metadata.component? snippets.importLine
  routePath : r.routePath = Metadata.routePath? snippets.route
  entryPath : r.entryPath = Metadata.entryPath? snippets.entry
  icon : r.icon = Metadata.icon? snippets.entry

theorem derived_of_read {index : Nat} {input : Text} (h : i.read index input = .ok r)
    (hc : r.complete = .ok snippets) : Derived index r snippets := by
  obtain ⟨d, rfl⟩ := i.read_eq_ok h
  unfold Record.complete at hc
  split at hc
  · rename_i imp route entry hi hr he
    cases hc
    change d.snippets.importLine = some imp at hi
    change d.snippets.route = some route at hr
    change d.snippets.homeCard = some entry at he
    refine ⟨rfl, ?_, ?_, ?_, ?_⟩ <;> simp [Record.ofDocument, Record.ofSnippets, hi, hr, he]
  · cases hc

/-- A document that is reported as processed has its snippets staged. -/
theorem report_processed {index : Nat} {input : Text}
    (h : (i.report targets staged index input).status = .processed) :
    ∃ r snippets, i.read index input = .ok r ∧ Eligible r snippets ∧
      i.report targets staged index input = .ofRecord r .processed ∧
      i.admitted targets staged index input = [⟨r.index, snippets, r.icon⟩] := by
  unfold report admitted at *
  cases hr : i.read index input with
  | error e => simp [hr] at h
  | ok r =>
    rw [hr] at h
    dsimp only at h ⊢
    cases ha : accept targets staged r with
    | error reason => simp [ha, RecordReport.ofRecord] at h
    | ok s =>
      obtain ⟨snippets, he, rfl⟩ := eligible_of_accept ha
      exact ⟨r, snippets, rfl, he, rfl, rfl⟩

/-- A document that is reported as a duplicate by a rule is one by that rule. -/
theorem report_duplicate {index : Nat} {input : Text} {rule : DuplicateRule}
    (h : (i.report targets staged index input).status = .skipped (.duplicate rule)) :
    ∃ r snippets, i.read index input = .ok r ∧ Eligible r snippets ∧
      DuplicateRule.find? targets (staged.map (·.snippets.route)) r = some rule := by
  unfold report at h
  cases hr : i.read index input with
  | error e => simp [hr] at h
  | ok r =>
    rw [hr] at h
    dsimp only at h
    cases ha : accept targets staged r with
    | ok s => simp [ha, RecordReport.ofRecord] at h
    | error reason =>
      simp only [ha, RecordReport.ofRecord, Status.skipped.injEq] at h
      obtain ⟨snippets, he, hd⟩ := eligible_of_duplicate (ha.trans (congrArg _ h))
      exact ⟨r, snippets, rfl, he, hd⟩

/-- The report on an eligible record says which duplicate rule refuses it, if one does. -/
theorem report_of_eligible {index : Nat} {input : Text} (h : i.read index input = .ok r)
    (he : Eligible r snippets) (targets : Targets) (staged : List Staged) :
    i.report targets staged index input =
      .ofRecord r
        (match DuplicateRule.find? targets (staged.map (·.snippets.route)) r with
        | some rule => .skipped (.duplicate rule)
        | none => .processed) := by
  simp only [report, h, accept_of_eligible he]
  cases DuplicateRule.find? targets (staged.map (·.snippets.route)) r <;> rfl

end Integrator

end Graft
