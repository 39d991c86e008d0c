import Graft.Toml.Moment
import Graft.Toml.Quoted
import Graft.Toml.Table

/-!
# Reading TOML

`Toml.parse?` reads a document of TOML 1.0.  The document is a list of statements, one a line, which
build a table one after the other.  Values are nested, and dotted keys long, only up to a limit.
-/

namespace Graft.Toml

open Text (skip?)

/-- Keys longer than this, and values nested deeper, are refused. -/
def nestingLimit : Nat := 79

/-- The characters of keys without quotes. -/
def isBareKey (c : Char) : Bool :=
  ('a' ≤ c && c ≤ 'z') || ('A' ≤ c && c ≤ 'Z') || isDecimal c || c == '-' || c == '_'

def bareKey? (t : Text) : Option (Text × Text) :=
  let key := t.takeWhile isBareKey
  if key.isEmpty then none else some (key, t.dropWhile isBareKey)

/-- A key of one part, with the blanks around it. -/
def simpleKey? : Scanner Text := fun t => do
  let t := skipBlanks t
  let (key, t) ← (quoted? t).or (bareKey? t)
  some (key, skipBlanks t)

/-- A dotted key, as the keys in front and the last one. -/
def key? : Scanner (List Text × Text) := fun t => do
  let (keys, t) ← separated '.' simpleKey? t
  let last ← keys.getLast?
  if keys.length ≤ nestingLimit then some ((keys.dropLast, last), t) else none

def boolean? (t : Text) : Option (Bool × Text) :=
  ((skip? "true".toList t).map fun t => (true, t)).or
    ((skip? "false".toList t).map fun t => (false, t))

/-- A value that holds no others. -/
def atom? (t : Text) : Option (Value × Text) :=
  let string := (string? t).map fun (s, t) => (Value.string s, t)
  let boolean := (boolean? t).map fun (b, t) => (Value.boolean b, t)
  let moment := (moment? t).map fun (s, t) => (Value.moment s, t)
  let float := (float? t).map fun (s, t) => (Value.float s, t)
  let integer := (integer? t).map fun (n, t) => (Value.integer n, t)
  string.or (boolean.or (moment.or (float.or integer)))

/-- The items of an array, read after its bracket.  After the last one there may be a comma. -/
def array? (value : Scanner Value) : Scanner Value := fun t =>
  match skip? [']'] (skipGap t) with
  | some t => some (.array [], t)
  | none => do
    let item : Scanner Value := fun t => (value (skipGap t)).map fun (v, t) => (v, skipGap t)
    let (items, t) ← separated ',' item t
    let t ← skip? [']'] (skipGap ((skip? [','] t).getD t))
    some (.array items, t)

def pair? (value : Scanner Value) : Scanner Pair := fun t => do
  let ((path, key), t) ← key? t
  let t ← skip? ['='] t
  let (v, t) ← value (skipBlanks t)
  some (⟨path, key, v⟩, skipBlanks t)

/-- The entries of an inline table, read after its brace. -/
def braced? (value : Scanner Value) : Scanner Value := fun t =>
  match skip? ['\x7d'] (skipBlanks t) with
  | some t => some (.table [], t)
  | none => do
    let (pairs, t) ← separated ',' (pair? value) t
    let t ← skip? ['\x7d'] t
    some (← inlineTable? pairs, t)

/-- A value in which values are nested to a depth. -/
def value? : Nat → Scanner Value
  | 0, t => atom? t
  | depth + 1, t =>
    match t with
    | '[' :: rest => array? (value? depth) rest
    | '\x7b' :: rest => braced? (value? depth) rest
    | _ => atom? t

/-- A line of a document. -/
inductive Statement where
  | header (path : List Text) (key : Text)
  | arrayHeader (path : List Text) (key : Text)
  /-- Adds an entry to the table that is open. -/
  | entry (p : Pair)
  deriving Repr

def statement? (t : Text) : Option (Statement × Text) :=
  match t with
  | '[' :: '[' :: rest => do
    let ((path, key), rest) ← key? rest
    some (.arrayHeader path key, ← skip? [']', ']'] rest)
  | '[' :: rest => do
    let ((path, key), rest) ← key? rest
    some (.header path key, ← skip? [']'] rest)
  | _ => (pair? (value? nestingLimit) t).map fun (p, t) => (.entry p, t)

/-- The statements of a document; lines without one are passed over. -/
def statementsFor : Nat → Text → Option (List Statement)
  | 0, t => if (skipGap t).isEmpty then some [] else none
  | fuel + 1, t => do
    let t := skipGap t
    if t.isEmpty then some []
    else
      let (s, t) ← statement? t
      let t ← lineEnd? t
      return s :: (← statementsFor fuel t)

/-- A document that is built, and the path of the table that is open. -/
structure Assembly where
  entries : Entries := []
  /-- The path of the table that is open. -/
  current : List Text := []

/-- What is built after one more statement. -/
def Assembly.add (d : Assembly) : Statement → Option Assembly
  | .header path key => do
    some ⟨← openTable path key .header d.entries, path ++ [key]⟩
  | .arrayHeader path key => do
    some ⟨← openArrayTable path key .header d.entries, path ++ [key]⟩
  | .entry p => do
    let change : Change := fun _ es => addPair es p
    some { d with entries := ← changeAt .headerPath change d.current .header d.entries }

/-- The entries of a document, if it is one. -/
def parse? (t : Text) : Option (List (Text × Value)) := do
  let t := (skip? ['\uFEFF'] t).getD t
  let statements ← statementsFor t.length t
  let d ← statements.foldlM Assembly.add {}
  some (entriesToValues d.entries)

end Graft.Toml
