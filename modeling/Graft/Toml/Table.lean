import Graft.Toml.Value

/-!
# Tables of TOML

How entries and headers build a table.  A header may open a table that only the paths of other
headers have mentioned, and a dotted key may go on with a table that dotted keys have made; any
other second definition is refused.  Tables in an array are opened by headers of their own, and a
path that leads through an array leads through its last table.
-/

namespace Graft.Toml

/-- What brought a table about. -/
inductive Origin where
  /-- Its header, or its place in an array. -/
  | header
  /-- A longer path in a header. -/
  | headerPath
  | dottedKey
  deriving DecidableEq, Repr

/-- What stands at a key while a table is built. -/
inductive Item where
  | value (v : Value)
  | table (origin : Origin) (entries : List (Text × Item))
  | tables (tables : List (List (Text × Item)))
  deriving Repr

/-- The entries of a table that is built. -/
abbrev Entries := List (Text × Item)

/-- The entries with the item at a key replaced. -/
def Entries.replace (key : Text) (i : Item) (es : Entries) : Entries :=
  es.map fun e => if e.1 = key then (key, i) else e

def Entries.without (key : Text) (es : Entries) : Entries := es.filter fun e => e.1 != key

/-- A change of a table, which may depend on what brought it about. -/
abbrev Change := Origin → Entries → Option Entries

/-- Makes a change at the end of a path.  Tables that are missing on the way are brought about
by `maker`; dotted keys do not go through a table that has a header. -/
def changeAt (maker : Origin) (change : Change) : List Text → Change
  | [], origin, es => change origin es
  | k :: path, _, es =>
    match es.lookup k with
    | none => (changeAt maker change path maker []).map fun sub => es ++ [(k, .table maker sub)]
    | some (.value _) => none
    | some (.table origin sub) =>
      if maker = .dottedKey ∧ origin = .header then none
      else
        (changeAt maker change path origin sub).map fun sub => es.replace k (.table origin sub)
    | some (.tables ts) =>
      match ts.getLast? with
      | none => none
      | some last =>
        (changeAt maker change path .header last).map fun last =>
          es.replace k (.tables (ts.dropLast ++ [last]))

/-- Adds an entry at a dotted key, given as the keys in front and the last one. -/
def addEntry (path : List Text) (key : Text) (v : Value) : Change :=
  changeAt .dottedKey (fun origin es =>
    if (origin == .dottedKey) == path.isEmpty || (es.lookup key).isSome then none
    else some (es ++ [(key, .value v)])) path

def openTable (path : List Text) (key : Text) : Change :=
  changeAt .headerPath (fun _ es =>
    match es.lookup key with
    | none => some (es ++ [(key, .table .header [])])
    | some (.table .headerPath sub) => some (es.without key ++ [(key, .table .header sub)])
    | some _ => none) path

def openArrayTable (path : List Text) (key : Text) : Change :=
  changeAt .headerPath (fun _ es =>
    match es.lookup key with
    | none => some (es ++ [(key, .tables [[]])])
    | some (.tables ts) => some (es.replace key (.tables (ts ++ [[]])))
    | some _ => none) path

mutual

def Item.toValue : Item → Value
  | .value v => v
  | .table _ es => .table (entriesToValues es)
  | .tables ts => .array (tablesToValues ts)

def entriesToValues : List (Text × Item) → List (Text × Value)
  | [] => []
  | (k, i) :: es => (k, i.toValue) :: entriesToValues es

/-- The values that the tables of an array come to. -/
def tablesToValues : List (List (Text × Item)) → List Value
  | [] => []
  | es :: ts => .table (entriesToValues es) :: tablesToValues ts

end

/-- A dotted key with a value: the keys in front, the last key, and the value. -/
structure Pair where
  path : List Text
  key : Text
  value : Value
  deriving Repr

def addPair (es : Entries) (p : Pair) : Option Entries := addEntry p.path p.key p.value .header es

/-- The table with the given pairs. -/
def inlineTable? (ps : List Pair) : Option Value :=
  (ps.foldlM addPair []).map fun es => .table (entriesToValues es)

end Graft.Toml
