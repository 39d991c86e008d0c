import Graft.File.Path

/-!
# Stores of files

What a program asks of the place where its files are: `FileStore` has the questions and the two
changes, making one directory and writing one file.  Making a directory with all that it is in is
built from them.

Names and paths have a longest size, and no path holds a NUL; `Path.checkForm` refuses a path that
no place can have anything at.
-/

namespace Graft

/-- Why a file cannot be read, or a file or directory not be made. -/
inductive IoFault where
  | notFound
  | exists
  /-- A part of the path is a file. -/
  | notDirectory
  | isDirectory
  /-- A name or the whole path has too many bytes. -/
  | nameTooLong
  | nulInPath
  | notText
  /-- Anything else. -/
  | other (text : String)
  deriving DecidableEq, Repr

def IoFault.message : IoFault → String
  | .notFound => "No such file or directory (os error 2)"
  | .exists => "File exists (os error 17)"
  | .notDirectory => "Not a directory (os error 20)"
  | .isDirectory => "Is a directory (os error 21)"
  | .nameTooLong => "File name too long (os error 36)"
  | .nulInPath => "file name contained an unexpected NUL byte"
  | .notText => "stream did not contain valid UTF-8"
  | .other text => text

/-- The most bytes that a name may have. -/
def Path.nameLimit : Nat := 255

/-- The most bytes that a path may have. -/
def Path.sizeLimit : Nat := 4095

/-- Refuses a path that leads nowhere whatever files there are: a NUL, the empty path, or too many
bytes, in this order. -/
def Path.checkForm (p : Path) : Except IoFault Unit :=
  if '\x00' ∈ p then .error .nulInPath
  else if p.isEmpty then .error .notFound
  else if Path.sizeLimit < Text.byteCount p then .error .nameTooLong
  else .ok ()

/-- A place with files and directories. -/
class FileStore (m : Type → Type) where
  /-- Whether there is a file at the path. -/
  isFile : Path → m Bool
  /-- Whether there is a directory at the path. -/
  isDir : Path → m Bool
  readText : Path → m (Except IoFault Text)
  makeDir : Path → m (Except IoFault Unit)
  /-- Writes a file, in place of the one that is there. -/
  writeText : Path → Text → m (Except IoFault Unit)

namespace FileStore

variable {m : Type → Type} [Monad m] [FileStore m]

/-- Accepts a failure to make a directory that is there. -/
def unlessDir (p : Path) (e : IoFault) : m (Except IoFault Unit) := do
  if ← isDir p then return .ok () else return .error e

/-- Makes the directory `p`, after those it is in where they are missing.  These come with the
nearest first. -/
def makeDirUnder (p : Path) : List Path → m (Except IoFault Unit)
  | [] => do
    if p.isEmpty then return .ok ()
    match ← makeDir p with
    | .ok () => return .ok ()
    | .error e => unlessDir p e
  | outer :: more => do
    if p.isEmpty then return .ok ()
    match ← makeDir p with
    | .ok () => return .ok ()
    | .error .notFound =>
      match ← makeDirUnder outer more with
      | .error e => return .error e
      | .ok () =>
        match ← makeDir p with
        | .ok () => return .ok ()
        | .error e => unlessDir p e
    | .error e => unlessDir p e

/-- Makes a directory and all that it is in, as far as they are missing. -/
def makeDirAll (p : Path) : m (Except IoFault Unit) := makeDirUnder p p.ancestors

end FileStore

end Graft
