import Graft.Batch.Duplicate
import Graft.Document.Reader
import Graft.Splice.Kind

/-!
# Reports

What a batch tells about each document, about the anchors it missed, and in total.
-/

namespace Graft

open Splice (SnippetKind)

/-- Why a record is not staged. -/
inductive SkipReason where
  | noIntegration
  | missingFields (fields : List SnippetField)
  | noComponent
  | duplicate (rule : DuplicateRule)
  deriving DecidableEq, Repr

def SkipReason.message : SkipReason → String
  | .noIntegration => "no integration section found"
  | .missingFields fields => "missing required fields: " ++ missingMessage fields
  | .noComponent => "could not extract component name"
  | .duplicate _ => "already exists"

/-- What becomes of a document. -/
inductive Status where
  | processed
  | skipped (reason : SkipReason)
  | failed (error : ReadError)
  deriving DecidableEq, Repr

/-- What a batch tells about one document. -/
structure RecordReport where
  /-- The place of the document in its batch, from one. -/
  index : Nat
  status : Status
  component : Option Text := none
  path : Option Text := none
  icon : Option Text := none
  /-- The kinds of its snippets that found no anchor. -/
  unspliced : List SnippetKind := []
  deriving DecidableEq, Repr

namespace RecordReport

/-- The report on a document that is read as a record. -/
def ofRecord (r : Record) (status : Status) : RecordReport where
  index := r.index
  status := status
  component := r.component
  path := r.routePath
  icon := r.icon

def isProcessed (r : RecordReport) : Bool :=
  match r.status with
  | .processed => true
  | _ => false

/-- Why the document is skipped, if it is. -/
def skipReason? (r : RecordReport) : Option SkipReason :=
  match r.status with
  | .skipped reason => some reason
  | _ => none

def isSkipped (r : RecordReport) : Bool := r.skipReason?.isSome

/-- Why the document cannot be read, if it cannot. -/
def readError? (r : RecordReport) : Option ReadError :=
  match r.status with
  | .failed e => some e
  | _ => none

def isFailed (r : RecordReport) : Bool := r.readError?.isSome

/-- The rule that makes the document a duplicate, if one does. -/
def rule? (r : RecordReport) : Option DuplicateRule :=
  match r.status with
  | .skipped (.duplicate rule) => some rule
  | _ => none

end RecordReport

/-- Snippets that found no anchor. -/
structure AnchorWarning where
  kind : SnippetKind
  strategy : String
  /-- The places of the documents they come from. -/
  affected : List Nat
  deriving DecidableEq, Repr

def AnchorWarning.message (w : AnchorWarning) : String :=
  "no " ++ w.kind.key ++ " anchor found by '" ++ w.strategy ++ "' strategy; records " ++
    String.intercalate ", " (w.affected.map toString) ++ " not spliced"

/-- Where the patched texts are written. -/
structure OutputFiles where
  router : Text
  listing : Text
  deriving DecidableEq, Repr

/-- What comes of a batch. -/
structure BatchResult where
  success : Bool
  total : Nat
  processed : Nat
  skipped : Nat
  /-- Why documents cannot be read, or why the batch was not run. -/
  errors : List String
  /-- One report for each document, in order. -/
  records : List RecordReport
  warnings : List AnchorWarning
  targets : Targets
  outputFiles : Option OutputFiles := none
  deriving DecidableEq, Repr

namespace BatchResult

/-- The result of a batch that was not run. -/
def aborted (total : Nat) (message : String) : BatchResult where
  success := false
  total := total
  processed := 0
  skipped := 0
  errors := [message]
  records := []
  warnings := []
  targets := ⟨[], []⟩

/-- The number of documents that cannot be read. -/
def errorCount (r : BatchResult) : Nat := r.records.countP RecordReport.isFailed

/-- Whether every staged snippet found its anchor. -/
def fullySpliced (r : BatchResult) : Bool := r.warnings.isEmpty

/-- The report on the document at a place. -/
def record? (r : BatchResult) (index : Nat) : Option RecordReport :=
  r.records.find? fun report => report.index == index

end BatchResult

end Graft
