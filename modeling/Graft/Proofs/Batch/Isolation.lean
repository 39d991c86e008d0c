import Mathlib.Data.List.Induction
import Graft.Proofs.Batch.Patching

/-!
# What the documents of a batch do to each other

A document that is not processed leaves no trace, and no document acts on those before it.

* `report_renumbered`: a report hangs on the place of its document, and on the snippets staged
  before it, but not on where those came from;
* `Mirrors.step`: a batch and its processed documents, run by themselves, stage the same snippets;
* `insertionOf_congr`: what is spliced hangs on those snippets alone;
* `run_isolated`: the two batches end alike, and each report is settled when its document is read.
-/

namespace Graft

open Splice

/-- The record, with its document at another place. -/
def Record.renumber (r : Record) (place : Nat) : Record := { r with index := place }

/-- The staged snippets, with their document at another place. -/
def Staged.renumber (s : Staged) (place : Nat) : Staged := { s with index := place }

/-- What is spliced of staged snippets, whatever the place of their document. -/
def Staged.content (s : Staged) : CompleteSnippets × Option Text := (s.snippets, s.icon)

namespace RecordReport

/-- The report, with its document at another place. -/
def renumber (r : RecordReport) (place : Nat) : RecordReport := { r with index := place }

/-- What a report tells of the document itself. -/
structure Told where
  component : Option Text
  path : Option Text
  icon : Option Text
  deriving DecidableEq, Repr

def told (r : RecordReport) : Told := ⟨r.component, r.path, r.icon⟩

/-- What a report says before anything is spliced. -/
def verdict (r : RecordReport) : Status × Told := (r.status, r.told)

theorem isProcessed_iff {r : RecordReport} : r.isProcessed ↔ r.status = .processed := by
  unfold isProcessed
  cases r.status <;> simp

end RecordReport

namespace Integrator

variable (i : Integrator) (targets : Targets)

/-! ## Documents at other places -/

theorem read_renumbered (m n : Nat) (input : Text) :
    i.read m input = (i.read n input).map (·.renumber m) := by
  unfold read
  cases Document.parse (if i.config.sanitizeInput then Document.unwrap input else input) <;> rfl

theorem find?_renumbered (routes : List Text) (r : Record) (m : Nat) :
    DuplicateRule.find? targets routes (r.renumber m) = DuplicateRule.find? targets routes r := by
  have hm : ∀ rule, DuplicateRule.matches? targets routes (r.renumber m) rule =
      DuplicateRule.matches? targets routes r rule := by
    intro rule
    cases rule <;> rfl
  simp only [DuplicateRule.find?, funext hm]

variable {staged staged' : List Staged}

theorem routes_eq_of_content (h : staged.map (·.content) = staged'.map (·.content)) :
    staged.map (·.snippets.route) = staged'.map (·.snippets.route) := by
  have hroutes := congrArg (List.map fun c => c.1.route) h
  simp only [List.map_map] at hroutes
  exact hroutes

theorem accept_renumbered (h : staged.map (·.content) = staged'.map (·.content)) (r : Record)
    (m : Nat) :
    accept targets staged' (r.renumber m) = (accept targets staged r).map (·.renumber m) := by
  have hempty : (r.renumber m).hasNoSnippets = r.hasNoSnippets := rfl
  have hcomplete : (r.renumber m).complete = r.complete := rfl
  have hname : (r.renumber m).component = r.component := rfl
  unfold accept
  rw [hempty, hcomplete, hname, find?_renumbered, ← routes_eq_of_content h]
  cases r.hasNoSnippets with
  | true => rfl
  | false =>
    cases r.complete with
    | error fields => rfl
    | ok snippets =>
      dsimp only
      cases r.component.isNone with
      | true => rfl
      | false =>
        cases DuplicateRule.find? targets (staged.map (·.snippets.route)) r with
        | some rule => rfl
        | none => rfl

/-- A report hangs on the place of its document, and on the snippets staged before it. -/
theorem report_renumbered (h : staged.map (·.content) = staged'.map (·.content)) (m n : Nat)
    (input : Text) :
    i.report targets staged' m input = (i.report targets staged n input).renumber m := by
  unfold report
  rw [i.read_renumbered m n]
  cases i.read n input with
  | error e => rfl
  | ok r =>
    simp only [Except.map, accept_renumbered targets h]
    cases accept targets staged r with
    | error reason => rfl
    | ok s => rfl

theorem admitted_renumbered (h : staged.map (·.content) = staged'.map (·.content)) (m n : Nat)
    (input : Text) :
    (i.admitted targets staged' m input).map (·.content) =
      (i.admitted targets staged n input).map (·.content) := by
  unfold admitted
  rw [i.read_renumbered m n]
  cases i.read n input with
  | error e => rfl
  | ok r =>
    simp only [Except.map, accept_renumbered targets h]
    cases accept targets staged r with
    | error reason => rfl
    | ok s => rfl

theorem admitted_of_not_processed {index : Nat} {input : Text}
    (h : (i.report targets staged index input).isProcessed = false) :
    i.admitted targets staged index input = [] := by
  unfold report at h
  unfold admitted
  cases hr : i.read index input with
  | error e => rfl
  | ok r =>
    rw [hr] at h
    dsimp only at h ⊢
    cases ha : accept targets staged r with
    | error reason => rfl
    | ok s =>
      rw [ha] at h
      cases h

/-! ## The processed documents by themselves -/

/-- The documents of some inputs whose reports say that they are processed. -/
def processedOf (inputs : List Text) (records : List RecordReport) : List Text :=
  ((inputs.zip records).filter fun p => p.2.isProcessed).map (·.1)

/-- The documents of a batch that are processed, in their order. -/
def processedInputs (inputs : List Text) : List Text :=
  processedOf inputs (i.run inputs targets).records

/-- What is known of a batch is known of its processed documents, too, and nothing else is. -/
structure Mirrors (p q : Progress) : Prop where
  staged : p.staged.map (·.content) = q.staged.map (·.content)
  told : (p.records.filter (·.isProcessed)).map (·.told) = q.records.map (·.told)
  processed : ∀ r ∈ q.records, r.isProcessed

/-- One more document of the batch is one more of those by themselves, if it is processed. -/
theorem Mirrors.step {p q : Progress} (h : Mirrors p q) (n m : Nat) (input : Text) :
    Mirrors (i.step targets p n input)
      (if (i.report targets p.staged n input).isProcessed then i.step targets q m input
        else q) := by
  have hreport := i.report_renumbered targets h.staged m n input
  rw [step_eq, step_eq, hreport]
  cases hp : (i.report targets p.staged n input).isProcessed with
  | false =>
    rw [i.admitted_of_not_processed targets hp, List.append_nil]
    refine ⟨h.staged, ?_, h.processed⟩
    simp [List.filter_append, hp, h.told]
  | true =>
    refine ⟨?_, ?_, ?_⟩
    · simp only [if_true, List.map_append, h.staged, i.admitted_renumbered targets h.staged m n]
    · simp only [if_true, List.filter_append, List.map_append, h.told]
      rw [List.filter_cons_of_pos hp]
      rfl
    · intro r hr
      simp only [if_true, List.mem_append, List.mem_singleton] at hr
      rcases hr with hr | rfl
      · exact h.processed r hr
      · exact hp

theorem processedOf_concat {inputs : List Text} {records : List RecordReport}
    (h : inputs.length = records.length) (input : Text) (r : RecordReport) :
    processedOf (inputs ++ [input]) (records ++ [r]) =
      processedOf inputs records ++ if r.isProcessed then [input] else [] := by
  rw [processedOf, List.zip_append h, List.filter_append, List.map_append, processedOf]
  cases hr : r.isProcessed <;> simp [hr]

/-- A batch is mirrored by its processed documents. -/
theorem mirrors_filter (inputs : List Text) :
    Mirrors (i.filter targets inputs)
      (i.filter targets (processedOf inputs (i.filter targets inputs).records)) := by
  induction inputs using List.reverseRecOn with
  | nil => exact ⟨rfl, rfl, fun _ hr => absurd hr List.not_mem_nil⟩
  | append_singleton inputs input ih =>
    have hlen : inputs.length = (i.filter targets inputs).records.length :=
      (i.length_records targets inputs).symm
    have hstep := ih.step i targets (inputs.length + 1)
      ((processedOf inputs (i.filter targets inputs).records).length + 1) input
    rw [filter_concat]
    rw [show (i.step targets (i.filter targets inputs) (inputs.length + 1) input).records =
      (i.filter targets inputs).records ++
        [i.report targets (i.filter targets inputs).staged (inputs.length + 1) input] by
      rw [step_eq], processedOf_concat hlen]
    split at hstep
    · rename_i hp
      rwa [if_pos hp, filter_concat]
    · rename_i hp
      rwa [if_neg hp, List.append_nil]

theorem processedInputs_eq (inputs : List Text) :
    i.processedInputs targets inputs =
      processedOf inputs (i.filter targets inputs).records := by
  have hmarked : ∀ warnings : List AnchorWarning,
      processedOf inputs ((i.filter targets inputs).records.map (markUnspliced warnings)) =
        processedOf inputs (i.filter targets inputs).records := by
    intro warnings
    simp only [processedOf, List.zip_map_right, List.filter_map, List.map_map]
    rfl
  exact hmarked _

/-! ## What is spliced -/

theorem snippetsOf_congr (h : staged.map (·.content) = staged'.map (·.content))
    (k : SnippetKind) : snippetsOf staged k = snippetsOf staged' k := by
  have hget : ∀ s : Staged, s.get k = Staged.get ⟨0, s.content.1, s.content.2⟩ k := by
    intro s
    cases k <;> rfl
  have hcontent : ∀ staged : List Staged, snippetsOf staged k =
      (staged.map (·.content)).filterMap fun c => Staged.get ⟨0, c.1, c.2⟩ k := by
    intro staged
    rw [snippetsOf_eq, List.filterMap_map, funext hget]
    rfl
  rw [hcontent, hcontent, h]

/-- What is spliced hangs on the snippets alone. -/
theorem insertionOf_congr (h : staged.map (·.content) = staged'.map (·.content))
    (k : SnippetKind) : i.insertionOf staged targets k = i.insertionOf staged' targets k := by
  have htext : i.textBefore staged targets k = i.textBefore staged' targets k := by
    cases k <;> simp only [textBefore, snippetsOf_congr h]
  rw [insertionOf, insertionOf, htext, snippetsOf_congr h]

theorem patchAll_congr (h : staged.map (·.content) = staged'.map (·.content)) :
    (i.patchAll staged targets).targets = (i.patchAll staged' targets).targets ∧
      (i.patchAll staged targets).warnings.map (fun w => (w.kind, w.strategy)) =
        (i.patchAll staged' targets).warnings.map (fun w => (w.kind, w.strategy)) := by
  have hwarn : ∀ k (places places' : List Nat) (r : Insertion),
      (warningOf k places r).map (fun w => (w.kind, w.strategy)) =
        (warningOf k places' r).map (fun w => (w.kind, w.strategy)) := by
    intro k places places' r
    unfold warningOf
    split <;> rfl
  simp only [patchAll_eq, insertionOf_congr i targets h, List.map_flatMap, true_and]
  congr 1
  funext k
  exact hwarn k _ _ _

/-! ## Both halves -/

theorem run_told (inputs : List Text) :
    (i.run inputs targets).records.map (·.told) =
      (i.filter targets inputs).records.map (·.told) := by
  simp only [run, List.map_map]
  rfl

theorem run_filter_told (inputs : List Text) :
    ((i.run inputs targets).records.filter (·.isProcessed)).map (·.told) =
      ((i.filter targets inputs).records.filter (·.isProcessed)).map (·.told) := by
  simp only [run, List.filter_map, List.map_map]
  rfl

/-- The report on a document is settled when the document is read. -/
theorem verdict_take (inputs : List Text) (k : Nat) :
    (i.run inputs targets).records[k]?.map (·.verdict) =
      (i.run (inputs.take (k + 1)) targets).records[k]?.map (·.verdict) := by
  have hinput : (inputs.take (k + 1))[k]? = inputs[k]? :=
    List.getElem?_take_of_lt (Nat.lt_succ_self k)
  have hbefore : i.stagedBefore targets (inputs.take (k + 1)) k =
      i.stagedBefore targets inputs k := by
    rw [stagedBefore, stagedBefore, List.take_take, Nat.min_eq_left (Nat.le_succ k)]
  simp only [run_records_getElem?, hinput, hbefore, Option.map_map]
  rfl

/-- **Documents that are not processed leave no trace, and none acts on those before it.**  The
processed documents of a batch, run by themselves in their order, are all processed, and leave the
same targets, the same kinds of warnings, and the same reports but for the places.  What the report
on a document says hangs on the targets and on the documents up to it. -/
theorem run_isolated (inputs : List Text) :
    let first := i.run inputs targets
    let alone := i.run (i.processedInputs targets inputs) targets
    ((∀ r ∈ alone.records, r.status = .processed) ∧
      alone.records.map (·.index) = List.range' 1 (i.processedInputs targets inputs).length ∧
      alone.targets = first.targets ∧
      alone.warnings.map (fun w => (w.kind, w.strategy)) =
        first.warnings.map (fun w => (w.kind, w.strategy)) ∧
      alone.records.map (·.told) = (first.records.filter (·.isProcessed)).map (·.told)) ∧
    ∀ k, first.records[k]?.map (·.verdict) =
      (i.run (inputs.take (k + 1)) targets).records[k]?.map (·.verdict) := by
  intro first alone
  have hmirror := i.mirrors_filter targets inputs
  rw [← processedInputs_eq] at hmirror
  obtain ⟨htargets, hwarnings⟩ := i.patchAll_congr targets hmirror.staged
  refine ⟨⟨?_, ?_, htargets.symm, hwarnings.symm, ?_⟩, i.verdict_take targets inputs⟩
  · intro r hr
    obtain ⟨r', hr', rfl⟩ := List.mem_map.1 hr
    exact RecordReport.isProcessed_iff.1 (hmirror.processed r' hr')
  · rw [run_map_index]
    exact (i.filterFrom_index targets ⟨[], []⟩ 1 _ rfl).1
  · rw [run_told, run_filter_told]
    exact hmirror.told.symm

end Integrator

end Graft
