import Graft.Document.Basic
import Graft.Output.Write

/-!
# Writing a module

The files that a document carries are written below one directory, and on request its snippets and
its plan for reference.  All paths are checked before anything is written: a path that is absolute,
goes up or comes to nothing is unsafe, and so is a slug that is more than one name.
-/

namespace Graft

/-- The directory that the paths of a module's files may begin with, and that is left out. -/
def sourceDir : Text := "src".toList

/-- The components of a file's path, without the source directory if it begins with it. -/
def moduleComponents (p : Path) : List Path.Component :=
  match p.components with
  | .normal name :: rest => if name = sourceDir then rest else .normal name :: rest
  | cs => cs

/-- The names that components go through; none if one of them leads out. -/
def namesOf? : List Path.Component → Option (List Text)
  | [] => some []
  | .normal name :: rest => (namesOf? rest).map (name :: ·)
  | .current :: rest => namesOf? rest
  | .parent :: _ | .root :: _ => none

/-- The path of a module's file below the output directory. -/
def relativeModulePath (p : Path) : Except OutputError Path :=
  match namesOf? (moduleComponents p) with
  | none | some [] => .error (.unsafePath p)
  | some names => .ok (Text.joinWith ['/'] names)

/-- A slug as the name of a directory. -/
def slugPath (slug : Text) : Except OutputError Path :=
  match Path.components slug with
  | [.normal _] => .ok slug
  | _ => .error (.unsafePath slug)

/-- What of a module is written, and where. -/
structure ModuleOutput where
  dir : Path
  dryRun : Bool := false
  saveSnippets : Bool := false
  savePlan : Bool := false
  deriving DecidableEq, Repr

/-- The files of a module that are to be written. -/
structure ModulePlan where
  files : List PlannedFile
  snippets : List PlannedFile := []
  plan : Option PlannedFile := none
  deriving DecidableEq, Repr

/-- All of the files, in the order in which they are written. -/
def ModulePlan.all (p : ModulePlan) : List PlannedFile := p.files ++ p.snippets ++ p.plan.toList

namespace ModuleOutput

/-- A file of a module and its place. -/
def fileOf (o : ModuleOutput) (f : ModuleFile) : Except OutputError PlannedFile := do
  return ⟨o.dir.join (← relativeModulePath f.path), f.content⟩

/-- The directory of a module's snippets and plan. -/
def moduleDir (o : ModuleOutput) (slug : Text) : Except OutputError Path := do
  return (o.dir.join "modules".toList).join (← slugPath slug)

/-- A snippet and its place in the directory of its module. -/
def snippetIn (dir : Path) (s : SnippetField × Text) : PlannedFile :=
  ⟨(dir.join "integration".toList).join (s.1.key.toList ++ ".txt".toList), s.2⟩

/-- The plan and its place in the directory of its module. -/
def planIn (dir : Path) (plan : Text) : PlannedFile := ⟨dir.join "PLAN.md".toList, plan⟩

/-- The files of a document that are to be written. -/
def plan (o : ModuleOutput) (d : Document) : Except OutputError ModulePlan := do
  let files ← d.files.mapM o.fileOf
  if o.saveSnippets || o.savePlan then
    let dir ← o.moduleDir d.slug
    return {
      files
      snippets := if o.saveSnippets then d.snippets.toList.map (snippetIn dir) else []
      plan := if o.savePlan then d.plan.map (planIn dir) else none }
  else return { files }

variable {m : Type → Type} [Monad m] [FileStore m]

/-- Writes the files of a document, and answers what was to be written. -/
def write (o : ModuleOutput) (d : Document) : m (Except OutputError ModulePlan) := do
  match o.plan d with
  | .error e => return .error e
  | .ok p =>
    if o.dryRun then return .ok p
    match ← Output.writeAll Output.writeUnderParent p.all with
    | .error e => return .error e
    | .ok () => return .ok p

end ModuleOutput

end Graft
