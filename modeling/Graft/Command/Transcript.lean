import Graft.Batch.Files
import Graft.Codec.Report
import Graft.Output.Module

/-!
# Transcripts

What a run of the program prints, and the status it ends with.
-/

namespace Graft.Command

/-- What a run prints, and its status. -/
structure Transcript where
  /-- What is printed as the result. -/
  out : Text := []
  err : Text := []
  exit : Nat := 0
  deriving DecidableEq, Repr

/-- Lines, each with a line break. -/
def unlines (lines : List String) : Text := (lines.map fun l => l.toList ++ ['\n']).flatten

/-- The status of a run that may have failed. -/
def exitOf (success : Bool) : Nat := if success then 0 else 1

/-- A dash for what is not there. -/
def orDash (t : Option Text) : String := String.ofList (t.getD ['-'])

def recordLine (total : Nat) (r : RecordReport) : String :=
  let place := "[" ++ toString r.index ++ "/" ++ toString total ++ "] "
  match r.status with
  | .processed =>
    place ++ "processed " ++ orDash r.component ++ " (path: " ++ orDash r.path ++ ", icon: " ++
      orDash r.icon ++ ")"
  | .skipped reason => place ++ "skipped " ++ orDash r.component ++ ": " ++ reason.message
  | .failed e => place ++ "error: " ++ e.message

/-- A heading and the items under it, if there are any. -/
def itemized (heading : String) (items : List String) : List String :=
  if items.isEmpty then [] else "" :: (heading ++ ":") :: items.map ("  - " ++ ·)

/-- The lines about where the patched texts are written. -/
def filesLines (dryRun : Bool) : Option OutputFiles → List String
  | none => []
  | some f =>
    ["", if dryRun then "Would write:" else "Written:", "  " ++ String.ofList f.router,
      "  " ++ String.ofList f.listing]

/-- The summary of a batch, in lines. -/
def summaryLines (dryRun : Bool) (r : BatchResult) : List String :=
  r.records.map (recordLine r.total) ++
    ["", "Integration summary", "  total:     " ++ toString r.total,
      "  processed: " ++ toString r.processed, "  skipped:   " ++ toString r.skipped,
      "  errors:    " ++ toString r.errors.length] ++
    itemized "Errors" r.errors ++ itemized "Warnings" (r.warnings.map AnchorWarning.message) ++
    filesLines dryRun r.outputFiles

/-- What the program prints about a batch. -/
def batchText (json dryRun : Bool) (r : BatchResult) : Text :=
  if json then r.toJson.render ++ ['\n'] else unlines (summaryLines dryRun r)

/-- The lines about the files of a module. -/
def moduleLines (dryRun : Bool) (d : Document) (p : ModulePlan) : List String :=
  ("Module: " ++ String.ofList d.moduleName ++ " (" ++ String.ofList d.slug ++ ")") ::
    p.all.map (fun f =>
      "  " ++ (if dryRun then "would write " else "wrote ") ++ String.ofList f.path) ++
    [toString p.all.length ++ " file(s)"]

/-- Why a request cannot be carried out. -/
inductive Failure where
  | config (path : Path) (error : ConfigError)
  | input (path : Path) (fault : IoFault)
  | setup (error : BatchError)
  | batch (error : BatchError)
  /-- The files of a module cannot be written. -/
  | module (slug : Text) (error : OutputError)
  deriving DecidableEq, Repr

/-- An error and what it comes from, each in words. -/
def causesOfConfig (e : ConfigError) : List String :=
  e.message :: match e with
    | .io _ fault => [fault.message]
    | .invalid fault => [fault.message]

/-- An error and what it comes from, each in words. -/
def causesOfOutput (e : OutputError) : List String :=
  e.message :: match e with
    | .io _ fault => [fault.message]
    | .unsafePath _ => []

/-- An error and what it comes from, each in words. -/
def causesOfBatch (e : BatchError) : List String :=
  e.message :: match e with
    | .targetMissing .. => []
    | .io _ fault => [fault.message]
    | .config e => causesOfConfig e
    | .setup e => [e.message]
    | .output e => causesOfOutput e

/-- What failed and what it comes from, each in words. -/
def Failure.causes : Failure → List String
  | .config path e => ("failed to load config " ++ String.ofList path) :: causesOfConfig e
  | .input path fault => ["failed to read " ++ String.ofList path, fault.message]
  | .setup e => "invalid anchor configuration" :: causesOfBatch e
  | .batch e => "integration failed" :: causesOfBatch e
  | .module slug e => ("failed to write module " ++ String.ofList slug) :: causesOfOutput e

/-- What is printed about a failure. -/
def Failure.line (f : Failure) : String := "error: " ++ String.intercalate ": " f.causes

/-- The transcript of a run that failed after it had printed something. -/
def Failure.transcript (f : Failure) (out : Text) : Transcript := ⟨out, unlines [f.line], 1⟩

end Graft.Command
