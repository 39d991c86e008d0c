import Graft.Batch.Report
import Graft.Config.Basic
import Graft.Output.Write

/-!
# Writing the patched targets

The two texts go into one directory, which is made where it is missing.
-/

namespace Graft

/-- Where the patched texts go. -/
structure OutputTarget where
  dir : Path
  dryRun : Bool := false
  deriving DecidableEq, Repr

namespace OutputTarget

def files (o : OutputTarget) (names : OutputNames) : OutputFiles where
  router := o.dir.join names.router
  listing := o.dir.join names.listing

/-- The patched texts with their paths. -/
def planned (o : OutputTarget) (names : OutputNames) (t : Targets) : List PlannedFile :=
  [⟨(o.files names).router, t.router⟩, ⟨(o.files names).listing, t.listing⟩]

variable {m : Type → Type} [Monad m] [FileStore m]

/-- Writes the patched texts, and answers their paths. -/
def write (o : OutputTarget) (names : OutputNames) (t : Targets) :
    m (Except OutputError OutputFiles) := do
  if o.dryRun then return .ok (o.files names)
  match ← Output.makeDir o.dir with
  | .error e => return .error e
  | .ok () =>
    match ← Output.writeAll Output.write (o.planned names t) with
    | .error e => return .error e
    | .ok () => return .ok (o.files names)

end OutputTarget

end Graft
