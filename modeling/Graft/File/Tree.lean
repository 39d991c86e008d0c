import Graft.File.Store

/-!
# Trees of files

A tree of files in memory.  Every file and directory has a location, the names on the way to it
from the root.  A path that begins with a slash is followed from the root, any other path from the
working directory.  `walk` follows the segments of a path: two dots go up, and whatever is gone
through must be a directory.

* `get?_put`: after a change at one location everything else is as before.
-/

namespace Graft

/-- The names on the way to a file or directory. -/
abbrev Location := List Text

/-- What a file holds. -/
inductive Content where
  | text (t : Text)
  /-- Anything else. -/
  | binary (bytes : List UInt8)
  deriving DecidableEq, Repr

/-- The content with the given bytes. -/
def Content.ofBytes (bytes : List UInt8) : Content :=
  match String.fromUTF8? ⟨bytes.toArray⟩ with
  | some s => .text s.toList
  | none => .binary bytes

/-- What is at a location. -/
inductive Entry where
  | directory
  | file (content : Content)
  deriving DecidableEq, Repr

/-- Files and directories, with one of the directories to start at. -/
structure FileTree where
  /-- What is at which location.  The working directory and those it is in need not be told. -/
  entries : List (Location × Entry) := []
  /-- The directory that paths are followed from. -/
  workingDir : Location := []
  deriving DecidableEq, Repr

namespace FileTree

open Text (splitAt endsWith)

def get? (t : FileTree) (l : Location) : Option Entry :=
  if l.isPrefixOf t.workingDir then some .directory else t.entries.lookup l

/-- What is below the working directory, located from there. -/
def contents (t : FileTree) : List (Location × Entry) :=
  t.entries.filterMap fun (l, e) =>
    if t.workingDir.isPrefixOf l then some (l.drop t.workingDir.length, e) else none

/-- The entries with one put at a location. -/
def putEntry (l : Location) (e : Entry) : List (Location × Entry) → List (Location × Entry)
  | [] => [(l, e)]
  | (k, v) :: rest => if k = l then (l, e) :: rest else (k, v) :: putEntry l e rest

/-- The tree with an entry put at a location. -/
def put (t : FileTree) (l : Location) (e : Entry) : FileTree :=
  { t with entries := putEntry l e t.entries }

/-- The tree without a location and all that is below it. -/
def prune (t : FileTree) (l : Location) : FileTree :=
  { t with entries := t.entries.filter fun e => !l.isPrefixOf e.1 }

/-- That there is a directory at a location. -/
def enter (t : FileTree) (l : Location) : Except IoFault Unit :=
  match t.get? l with
  | some .directory => .ok ()
  | some (.file _) => .error .notDirectory
  | none => .error .notFound

/-- The location of a name in a directory. -/
def within (l : Location) (name : Text) : Except IoFault Location :=
  if Path.nameLimit < Text.byteCount name then .error .nameTooLong else .ok (l ++ [name])

/-- The location that segments lead to.  All but the last one gone to must be a directory. -/
def walk (t : FileTree) (l : Location) : List Text → Except IoFault Location
  | [] => .ok l
  | s :: rest => do
    t.enter l
    if s.isEmpty || s == Path.dot then t.walk l rest
    else if s == Path.dots then t.walk l.dropLast rest
    else t.walk (← within l s) rest

/-- The location that a path is followed from. -/
def start (t : FileTree) (p : Path) : Location := if p.isAbsolute then [] else t.workingDir

/-- The location that a path leads to. -/
def locate (t : FileTree) (p : Path) : Except IoFault Location := do
  p.checkForm
  t.walk (t.start p) (splitAt '/' p)

def find (t : FileTree) (p : Path) : Except IoFault Entry := do
  (t.get? (← t.locate p)).elim (.error .notFound) .ok

/-- The directory and the name that a path would give to something new; no name if the path ends in
dots or is the root. -/
def place (t : FileTree) (p : Path) : Except IoFault (Location × Option Text) := do
  p.checkForm
  let segments := (splitAt '/' p).filter fun s => !s.isEmpty
  let dir ← t.walk (t.start p) segments.dropLast
  t.enter dir
  return (dir, segments.getLast?.filter fun last => last != Path.dot && last != Path.dots)

def makeDir (t : FileTree) (p : Path) : Except IoFault FileTree := do
  match ← t.place p with
  | (_, none) => .error .exists
  | (dir, some name) =>
    let l ← within dir name
    if (t.get? l).isSome then .error .exists else .ok (t.put l .directory)

def write (t : FileTree) (p : Path) (c : Content) : Except IoFault FileTree := do
  match ← t.place p with
  | (_, none) => .error .isDirectory
  | (dir, some name) =>
    if endsWith '/' p then .error .isDirectory
    else
      let l ← within dir name
      if t.get? l = some .directory then .error .isDirectory else .ok (t.put l (.file c))

def readText (t : FileTree) (p : Path) : Except IoFault Text := do
  match ← t.find p with
  | .directory => .error .isDirectory
  | .file (.text s) => .ok s
  | .file (.binary _) => .error .notText

def isFile (t : FileTree) (p : Path) : Bool :=
  match t.find p with
  | .ok (.file _) => true
  | _ => false

def isDir (t : FileTree) (p : Path) : Bool :=
  match t.find p with
  | .ok .directory => true
  | _ => false

/-- Removes what a path leads to, with all that is below it. -/
def remove (t : FileTree) (p : Path) : Except IoFault FileTree := do
  let l ← t.locate p
  if (t.get? l).isNone then .error .notFound else .ok (t.prune l)

/-- A change of the tree, as a step of a program; a tree that cannot be changed stays. -/
def step (change : FileTree → Except IoFault FileTree) : StateM FileTree (Except IoFault Unit) :=
  fun t =>
    match change t with
    | .ok t' => (.ok (), t')
    | .error e => (.error e, t)

instance : FileStore (StateM FileTree) where
  isFile p := fun t => (t.isFile p, t)
  isDir p := fun t => (t.isDir p, t)
  readText p := fun t => (t.readText p, t)
  makeDir p := step fun t => t.makeDir p
  writeText p s := step fun t => t.write p (.text s)

theorem lookup_putEntry (l k : Location) (e : Entry) (es : List (Location × Entry)) :
    (putEntry l e es).lookup k = if k = l then some e else es.lookup k := by
  induction es with
  | nil => by_cases h : k = l <;> simp [putEntry, List.lookup_cons, h, beq_false_of_ne]
  | cons x es ih =>
    obtain ⟨a, v⟩ := x
    by_cases ha : a = l
    · subst ha
      by_cases hk : k = a <;> simp [putEntry, List.lookup_cons, hk, beq_false_of_ne]
    · by_cases hk : k = a
      · subst hk; simp [putEntry, ha]
      · simp [putEntry, List.lookup_cons, ha, beq_false_of_ne hk, ih]

theorem get?_put {t : FileTree} {l k : Location} {e : Entry} (hl : ¬l <+: t.workingDir) :
    (t.put l e).get? k = if k = l then some e else t.get? k := by
  by_cases hk : k = l
  · subst hk; simp [get?, put, hl, lookup_putEntry]
  · simp [get?, put, hk, lookup_putEntry]

end FileTree

end Graft
