import Graft.Command.Run

/-!
# The program

Runs the command line over the files of the system.
-/

namespace Graft

/-- The number of a system error.  Some codes come with the sign changed. -/
def systemErrorNumber (code : UInt32) : UInt32 := if code < 0x80000000 then code else 0 - code

/-- What a failed system call says. -/
def IoFault.ofError (e : IO.Error) : IoFault :=
  match e with
  | .noFileOrDirectory .. => .notFound
  | .alreadyExists .. => .exists
  | .inappropriateType _ code _ | .invalidArgument _ code _ =>
    match systemErrorNumber code with
    | 20 => .notDirectory
    | 21 => .isDirectory
    | 36 => .nameTooLong
    | _ => .other (toString e)
  | e => .other (toString e)

/-- Runs an action on what a path leads to, and answers why it fails if it fails. -/
def reaching {α : Type} (p : Path) (action : String → IO α) : IO (Except IoFault α) := do
  match p.checkForm with
  | .error e => return .error e
  | .ok () => try return .ok (← action (String.ofList p)) catch e => return .error (.ofError e)

instance : FileStore IO where
  isFile p := do
    return (← reaching p fun path => do
      let handle ← IO.FS.Handle.mk path .read
      let _ ← handle.read 1).isOk
  isDir p := do
    return (← reaching p fun path => do
      let _ ← IO.FS.Handle.mk (path ++ "/.") .read).isOk
  readText p := do
    match ← reaching p fun path => IO.FS.readBinFile path with
    | .error e => return .error e
    | .ok bytes =>
      match String.fromUTF8? bytes with
      | some s => return .ok s.toList
      | none => return .error .notText
  makeDir p := reaching p fun path => IO.FS.createDir path
  writeText p t := reaching p fun path => IO.FS.writeFile path (String.ofList t)

end Graft

/-- Runs the program on the arguments of the command line. -/
def main (args : List String) : IO UInt32 := do
  let t ← (Graft.Command.run (args.map String.toList) : IO Graft.Command.Transcript)
  IO.print (String.ofList t.out)
  IO.eprint (String.ofList t.err)
  return UInt32.ofNat t.exit
