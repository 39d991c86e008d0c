import Graft.Batch.Report
import Graft.Json.Basic

/-!
# Reports in JSON

The summary of a batch as JSON.  What is absent or empty is left out where a report allows it.
-/

namespace Graft

open Splice (SnippetKind)

/-- A member that is left out when there is no value. -/
def Json.optional (key : String) (v : Option Text) : List (String × Json) :=
  (v.map fun t => (key, Json.string t)).toList

/-- A member that is left out when the list is empty. -/
def Json.nonempty (key : String) (vs : List Json) : List (String × Json) :=
  if vs.isEmpty then [] else [(key, .array vs)]

/-- The members that tell what becomes of a document. -/
def Status.members : Status → List (String × Json)
  | .processed => [("status", .ofString "processed")]
  | .skipped reason => [("status", .ofString "skipped"), ("reason", .ofString reason.message)]
  | .failed e => [("status", .ofString "error"), ("reason", .ofString e.message)]

def RecordReport.toJson (r : RecordReport) : Json :=
  .object (("index", .ofNat r.index) :: r.status.members ++ Json.optional "component" r.component ++
    Json.optional "path" r.path ++ Json.optional "icon" r.icon ++
    Json.nonempty "unspliced" (r.unspliced.map fun k => .ofString k.key))

def AnchorWarning.toJson (w : AnchorWarning) : Json :=
  .object [("kind", .ofString w.kind.key), ("strategy", .ofString w.strategy),
    ("affected", .array (w.affected.map .ofNat))]

def OutputFiles.toJson (f : OutputFiles) : Json :=
  .object [("router", .string f.router), ("listing", .string f.listing)]

def BatchResult.toJson (r : BatchResult) : Json :=
  .object ([("success", .boolean r.success), ("total", .ofNat r.total),
    ("processed", .ofNat r.processed), ("skipped", .ofNat r.skipped),
    ("errors", .array (r.errors.map .ofString)),
    ("per_record", .array (r.records.map RecordReport.toJson))] ++
    Json.nonempty "warnings" (r.warnings.map AnchorWarning.toJson) ++
    (r.outputFiles.map fun f => ("output_files", f.toJson)).toList)

end Graft
