import Graft.Batch.Run
import Graft.Config.Reader
import Graft.Output.Targets

/-!
# Batches over files

The targets of a batch are files, and the patched texts are written to an output directory if any
document was processed.  That a target is there is checked before either is read.
-/

namespace Graft

open Splice (TargetRole SetupError)

/-- Why a batch cannot be run. -/
inductive BatchError where
  | targetMissing (role : TargetRole) (path : Path)
  | io (path : Path) (fault : IoFault)
  | config (error : ConfigError)
  | setup (error : SetupError)
  /-- The patched texts cannot be written. -/
  | output (error : OutputError)
  deriving DecidableEq, Repr

namespace BatchError

def message : BatchError → String
  | .targetMissing role path => role.key ++ " file not found: " ++ String.ofList path
  | .io path fault => "failed to read " ++ String.ofList path ++ ": " ++ fault.message
  | .config e => "configuration error: " ++ e.message
  | .setup e => "insertion engine error: " ++ e.message
  | .output e => "output error: " ++ e.message

/-- Whether the batch was refused because of its targets, before any document was read. -/
def isPrecondition : BatchError → Bool
  | .targetMissing .. | .io .. => true
  | .config _ | .setup _ | .output _ => false

end BatchError

/-- The files that the targets are in. -/
structure TargetPaths where
  router : Path
  listing : Path
  deriving DecidableEq, Repr

namespace TargetPaths

variable {m : Type → Type} [Monad m] [FileStore m]

def readFile (p : Path) : m (Except BatchError Text) := do
  return (← FileStore.readText p).mapError (.io p)

def read (p : TargetPaths) : m (Except BatchError Targets) := do
  if !(← FileStore.isFile p.router) then return .error (.targetMissing .router p.router)
  if !(← FileStore.isFile p.listing) then return .error (.targetMissing .listing p.listing)
  match ← readFile p.router with
  | .error e => return .error e
  | .ok router =>
    match ← readFile p.listing with
    | .error e => return .error e
    | .ok listing => return .ok ⟨router, listing⟩

end TargetPaths

namespace Integrator

variable {m : Type → Type} [Monad m] [FileStore m]

/-- Runs a batch over two files. -/
def runFiles (i : Integrator) (inputs : List Text) (paths : TargetPaths) (o : OutputTarget) :
    m (Except BatchError BatchResult) := do
  match ← paths.read with
  | .error e => return .error e
  | .ok targets =>
    let r := i.run inputs targets
    if r.processed = 0 then return .ok r
    match ← o.write i.config.output r.targets with
    | .error e => return .error (.output e)
    | .ok files => return .ok { r with outputFiles := some files }

end Integrator

end Graft
