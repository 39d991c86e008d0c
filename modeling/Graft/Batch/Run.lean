import Graft.Batch.Report
import Graft.Config.Basic
import Graft.Document.Unwrap
import Graft.Splice.Engine

/-!
# Running a batch

A batch reads its documents in order and stages the snippets of those that are complete and new.
Then each kind of snippet is spliced into its target, all snippets of a kind at once: imports and
routes into the router, icons and entries into the listing.
-/

namespace Graft

open Splice

def Targets.get (t : Targets) : TargetRole → Text
  | .router => t.router
  | .listing => t.listing

def Targets.set (t : Targets) (text : Text) : TargetRole → Targets
  | .router => { t with router := text }
  | .listing => { t with listing := text }

/-- The snippets of a record that is accepted. -/
structure Staged where
  /-- The place of its document in the batch. -/
  index : Nat
  snippets : CompleteSnippets
  icon : Option Text
  deriving DecidableEq, Repr

def Staged.get (s : Staged) : SnippetKind → Option Text
  | .importLine => some s.snippets.importLine
  | .route => some s.snippets.route
  | .icon => s.icon
  | .listEntry => some s.snippets.entry

/-- The steps of a batch. -/
inductive BatchPhase where
  | readingInputs
  /-- Documents are read and duplicates found. -/
  | filtering
  | staging
  | patching
  | writing
  | done
  | failed
  deriving DecidableEq, Repr

namespace BatchPhase

def all : List BatchPhase :=
  [.readingInputs, .filtering, .staging, .patching, .writing, .done, .failed]

def message : BatchPhase → String
  | .readingInputs => "reading inputs"
  | .filtering => "filtering"
  | .staging => "staging"
  | .patching => "patching"
  | .writing => "writing"
  | .done => "done"
  | .failed => "failed"

def isTerminal (p : BatchPhase) : Bool := p == .done || p == .failed

end BatchPhase

/-- A configuration with a strategy for every kind of snippet. -/
structure Integrator where
  config : Config
  engine : Engine
  /-- No strategy is missing. -/
  complete : engine.missing? = none

namespace Integrator

/-- The integrator with the strategies of an engine, which must have one for every kind. -/
def ofEngine (config : Config) (engine : Engine) : Except SetupError Integrator :=
  match h : engine.missing? with
  | none => .ok ⟨config, engine, h⟩
  | some k => .error (.noStrategy k)

/-- The integrator with the strategies for the configured anchors. -/
def ofConfig (config : Config) : Except SetupError Integrator := do
  ofEngine config (← Engine.ofSettings config.anchors)

def strategy (i : Integrator) (k : SnippetKind) : Strategy :=
  (i.engine.strategy? k).get ((Engine.missing?_eq_none_iff i.engine).1 i.complete k)

/-- The record of the document at a place of the batch. -/
def read (i : Integrator) (index : Nat) (input : Text) : Except ReadError Record :=
  (Document.parse (if i.config.sanitizeInput then Document.unwrap input else input)).map
    (Record.ofDocument index)

/-- The snippets of a record, or why it is not staged. -/
def accept (targets : Targets) (staged : List Staged) (r : Record) : Except SkipReason Staged :=
  if r.hasNoSnippets then .error .noIntegration
  else
    match r.complete with
    | .error fields => .error (.missingFields fields)
    | .ok snippets =>
      if r.component.isNone then .error .noComponent
      else
        match DuplicateRule.find? targets (staged.map (·.snippets.route)) r with
        | some rule => .error (.duplicate rule)
        | none => .ok ⟨r.index, snippets, r.icon⟩

/-- What is known after some of the documents. -/
structure Progress where
  staged : List Staged
  records : List RecordReport
  deriving DecidableEq, Repr

def step (i : Integrator) (targets : Targets) (p : Progress) (index : Nat) (input : Text) :
    Progress :=
  match i.read index input with
  | .error e => { p with records := p.records ++ [{ index, status := .failed e }] }
  | .ok r =>
    match accept targets p.staged r with
    | .error reason => { p with records := p.records ++ [.ofRecord r (.skipped reason)] }
    | .ok s => ⟨p.staged ++ [s], p.records ++ [.ofRecord r .processed]⟩

/-- Reads documents, the first of which has place `index`. -/
def filterFrom (i : Integrator) (targets : Targets) (p : Progress) : Nat → List Text → Progress
  | _, [] => p
  | index, input :: inputs =>
    i.filterFrom targets (i.step targets p index input) (index + 1) inputs

/-- Reads all documents of a batch. -/
def filter (i : Integrator) (targets : Targets) (inputs : List Text) : Progress :=
  i.filterFrom targets ⟨[], []⟩ 1 inputs

/-- The staged snippets of a kind, with the places of their documents. -/
def stagedOf (staged : List Staged) (k : SnippetKind) : List (Nat × Text) :=
  staged.filterMap fun s => (s.get k).map fun t => (s.index, t)

/-- The targets and the warnings after some of the kinds are spliced. -/
structure Patched where
  targets : Targets
  warnings : List AnchorWarning
  deriving DecidableEq, Repr

/-- The warning about the snippets of a kind, if their anchor was missing. -/
def warningOf (k : SnippetKind) (affected : List Nat) (r : Insertion) : List AnchorWarning :=
  if r.outcome.isAnchorMissing then [⟨k, r.strategy, affected⟩] else []

/-- Splices the staged snippets of one kind. -/
def patch (i : Integrator) (staged : List Staged) (p : Patched) (k : SnippetKind) : Patched :=
  let picked := stagedOf staged k
  let r := (i.strategy k).apply (p.targets.get k.target) (picked.map (·.2))
  ⟨p.targets.set r.text k.target, p.warnings ++ warningOf k (picked.map (·.1)) r⟩

/-- Splices all staged snippets, kind after kind. -/
def patchAll (i : Integrator) (staged : List Staged) (targets : Targets) : Patched :=
  SnippetKind.all.foldl (i.patch staged) ⟨targets, []⟩

/-- The report with the kinds that warnings list its document under. -/
def markUnspliced (warnings : List AnchorWarning) (r : RecordReport) : RecordReport :=
  { r with unspliced := (warnings.filter fun w => w.affected.contains r.index).map (·.kind) }

/-- Why a document cannot be read, with its place. -/
def errorLine? (r : RecordReport) : Option String :=
  r.readError?.map fun e => "module " ++ toString r.index ++ ": " ++ e.message

/-- Runs a batch over two target texts. -/
def run (i : Integrator) (inputs : List Text) (targets : Targets) : BatchResult :=
  let p := i.filter targets inputs
  let patched := i.patchAll p.staged targets
  { success := true
    total := inputs.length
    processed := p.records.countP RecordReport.isProcessed
    skipped := p.records.countP RecordReport.isSkipped
    errors := p.records.filterMap errorLine?
    records := p.records.map (markUnspliced patched.warnings)
    warnings := patched.warnings
    targets := patched.targets }

end Integrator

end Graft
