import Graft.File.Store

/-!
# Writing files

Texts are written one after the other, until one cannot be written; those before it stay.
-/

namespace Graft

/-- Why output cannot be written. -/
inductive OutputError where
  /-- A directory cannot be made or a file not be written. -/
  | io (path : Path) (fault : IoFault)
  /-- The path of a module's file leads out of the output directory. -/
  | unsafePath (path : Path)
  deriving DecidableEq, Repr

def OutputError.message : OutputError → String
  | .io path fault => "failed to write " ++ String.ofList path ++ ": " ++ fault.message
  | .unsafePath path => "unsafe module file path: " ++ String.ofList path

/-- A text and where it is to be written. -/
structure PlannedFile where
  path : Path
  text : Text
  deriving DecidableEq, Repr

namespace Output

variable {m : Type → Type} [Monad m] [FileStore m]

/-- Makes a directory with all that it is in. -/
def makeDir (p : Path) : m (Except OutputError Unit) := do
  return (← FileStore.makeDirAll p).mapError (.io p)

def write (f : PlannedFile) : m (Except OutputError Unit) := do
  return (← FileStore.writeText f.path f.text).mapError (.io f.path)

/-- Makes the directory that a file is in. -/
def makeParent (f : PlannedFile) : m (Except OutputError Unit) :=
  match f.path.parent? with
  | some p => makeDir p
  | none => return .ok ()

/-- Makes the directory that a file is in and writes the file. -/
def writeUnderParent (f : PlannedFile) : m (Except OutputError Unit) := do
  match ← makeParent f with
  | .error e => return .error e
  | .ok () => write f

/-- Takes one step for each file, until one fails. -/
def writeAll (step : PlannedFile → m (Except OutputError Unit)) :
    List PlannedFile → m (Except OutputError Unit)
  | [] => return .ok ()
  | f :: fs => do
    match ← step f with
    | .error e => return .error e
    | .ok () => writeAll step fs

end Output

end Graft
