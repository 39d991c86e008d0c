import Graft.Command.Invocation
import Graft.Command.Transcript
import Graft.Document.Diagnosis

/-!
# Carrying out requests

Each request reads its files from a store, may write there, and answers what the program prints.
-/

namespace Graft.Command

variable {m : Type → Type} [Monad m] [FileStore m]

def readInput (p : Path) : m (Except Failure Text) := do
  return (← FileStore.readText p).mapError (.input p)

def readInputs : List Path → m (Except Failure (List Text))
  | [] => return .ok []
  | p :: ps => do
    match ← readInput p with
    | .error e => return .error e
    | .ok t => return (← readInputs ps).map (t :: ·)

def integrateTexts (config : Config) (paths : TargetPaths) (o : OutputTarget) (json : Bool)
    (inputs : List Text) : m Transcript := do
  match Integrator.ofConfig config with
  | .error e => return (Failure.setup (.setup e)).transcript []
  | .ok i =>
    match ← i.runFiles inputs paths o with
    | .ok r => return ⟨batchText json o.dryRun r, [], exitOf r.success⟩
    | .error e =>
      if e.isPrecondition then
        let r := BatchResult.aborted inputs.length e.message
        return ⟨batchText json o.dryRun r, [], exitOf r.success⟩
      else return (Failure.batch e).transcript []

def integrate (config : Config) (paths : TargetPaths) (o : OutputTarget) (json : Bool)
    (inputs : List Path) : m Transcript := do
  match ← readInputs inputs with
  | .error e => return e.transcript []
  | .ok texts => integrateTexts config paths o json texts

/-- What is printed about a document that cannot be read. -/
def readErrorText (p : Path) (t : Text) (e : ReadError) : Text :=
  unlines [String.ofList p ++ ": " ++ e.message, (Diagnosis.of t).message]

def extract (config : Config) (input : Path) (o : ModuleOutput) : m Transcript := do
  match ← readInput input with
  | .error e => return e.transcript []
  | .ok raw =>
    let t := if config.sanitizeInput then Document.unwrap raw else raw
    match Document.parse t with
    | .error e => return ⟨[], readErrorText input t e, 1⟩
    | .ok d =>
      match ← o.write d with
      | .error e => return (Failure.module d.slug e).transcript []
      | .ok p => return ⟨unlines (moduleLines o.dryRun d p), [], 0⟩

/-- Diagnoses documents after some that have been diagnosed: `out` is what is printed about these,
and `good` whether all of them can be read. -/
def diagnoseFrom (out : Text) (good : Bool) : List Path → m Transcript
  | [] => return ⟨out, [], exitOf good⟩
  | p :: ps => do
    match ← readInput p with
    | .error e => return e.transcript out
    | .ok raw =>
      let d := Diagnosis.of (Document.unwrap raw)
      let gap := if out.isEmpty then [] else [""]
      let lines := gap ++ ["== " ++ String.ofList p ++ " ==", d.message]
      diagnoseFrom (out ++ unlines lines) (good && d.parses) ps

def Request.run (config : Config) : Request → m Transcript
  | .integrate router listing outputDir dryRun json inputs =>
    Command.integrate config ⟨router, listing⟩ ⟨outputDir, dryRun⟩ json inputs
  | .extract input outputDir dryRun saveSnippets savePlan =>
    Command.extract config input ⟨outputDir, dryRun, saveSnippets, savePlan⟩
  | .diagnose inputs => diagnoseFrom [] true inputs

def Invocation.loadConfig (i : Invocation) : m (Except Failure Config) := do
  match i.config with
  | none => return .ok {}
  | some p => return (← Config.load p).mapError (.config p)

def Invocation.run (i : Invocation) : m Transcript := do
  match ← i.loadConfig with
  | .error e => return e.transcript []
  | .ok config => i.request.run config

def version : String := "0.1.0"

def usage : List String :=
  ["Usage: modweave [--config PATH] [-v] [--log-json] COMMAND",
    "",
    "Commands:",
    "  integrate --router PATH --listing PATH [--output-dir DIR] [--dry-run] [--json] INPUT...",
    "  extract INPUT [--output-dir DIR] [--dry-run] [--save-snippets] [--save-plan]",
    "  diagnose INPUT..."]

/-- What is printed instead of running a command line. -/
def Refusal.transcript : Refusal → Transcript
  | .help => ⟨unlines usage, [], 0⟩
  | .version => ⟨unlines ["modweave " ++ Command.version], [], 0⟩
  | r => ⟨[], unlines (("error: " ++ r.message) :: "" :: usage), 2⟩

def run (args : List Text) : m Transcript :=
  match Invocation.parse args with
  | .error r => return r.transcript
  | .ok i => i.run

end Graft.Command
