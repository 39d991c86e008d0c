import Graft.Text.Pattern
import Graft.Text.Line
import Graft.Splice.Anchor
import Graft.Splice.Settings

/-!
# Import lines

Imports of components go below the last import of a module.  While there is none, they go below the
marker comment, and failing that below the end of the router library's import.
-/

namespace Graft.Splice.Imports

open Text

/-- What follows the line of a module's import, at the start of which the text begins. -/
def moduleImport? (source : Text) (t : Text) : Option Text := do
  let t ← skip? "import".toList (t.dropWhile isIndent)
  let t ← skipSpaces? t
  let (_, t) ← ident? t
  let t ← skipApart? "from".toList t
  let t ← skipSpaces? t
  let t ← skipQuote? t
  let t ← skip? source t
  let t ← skipQuote? (fromQuote t)
  skipLineEnd? ((skipSemicolon t).dropWhile isIndent)

/-- What follows the last of the module imports, which are taken from the left and do not overlap.
`fresh` says that a line begins here, `busy` how many characters still belong to the last import. -/
def afterLastImport? (source : Text) (fresh : Bool) : Nat → Text → Option Text
  | _, [] => none
  | busy + 1, c :: t => afterLastImport? source (c == '\n') busy t
  | 0, c :: t =>
    match if fresh then moduleImport? source (c :: t) else none with
    | some rest => (afterLastImport? source (c == '\n') (t.length - rest.length) t).or (some rest)
    | none => afterLastImport? source (c == '\n') 0 t

/-- What follows the line of the marker comment. -/
def afterMarker? (marker t : Text) : Option Text :=
  if marker.isEmpty then none else (cut? marker t).map fun (_, rest) => (splitLine rest).2

/-- What follows the end of the library's import, at the closing brace of which the text begins. -/
def libraryImport? (library t : Text) : Option Text := do
  let t ← skip? ['\x7d'] t
  let t ← skipSpaced? "from".toList t
  let t ← skipQuote? (trimStart t)
  let t ← skip? library t
  let t ← skipQuote? t
  some (skipSemicolon t)

/-- What follows the line on which the library's first import ends. -/
def afterLibraryImport? (library t : Text) : Option Text :=
  (leftmost (fun _ => libraryImport? library) none t).map fun (_, rest) => (splitLine rest).2

/-- The anchor in front of a suffix of the text. -/
def anchorBefore (kind : AnchorKind) (t rest : Text) : Anchor := .point kind (upTo t rest) rest []

def findAnchor (s : AnchorSettings) (t : Text) : Option Anchor :=
  match afterLastImport? s.moduleImportPrefix true 0 t with
  | some rest => some (anchorBefore .moduleImport t rest)
  | none =>
    match afterMarker? s.importsMarker t with
    | some rest => some (anchorBefore .importsMarker t rest)
    | none => (afterLibraryImport? s.routerLibrary t).map (anchorBefore .routerImport t)

/-- An import statement, trimmed and ended by a semicolon. -/
def terminated (statement : Text) : Text :=
  let line := trim statement
  if endsWith ';' line then line else line ++ [';']

/-- The newline that ends an unfinished last line, when the anchor is at its end. -/
def lead (a : Anchor) : Text :=
  if a.rest.isEmpty && !a.before.isEmpty && !endsWith '\n' a.before then ['\n'] else []

/-- The imports, each on lines of its own. -/
def block (snippets : List Text) : Text := (snippets.map fun s => terminated s ++ ['\n']).flatten

def splice (a : Anchor) (snippets : List Text) : Spliced :=
  ⟨a.insert (lead a ++ block snippets), snippets.length⟩

/-- The strategy for imports, which needs to know the source of a module's import. -/
def strategy (s : AnchorSettings) : Except SetupError Strategy :=
  if s.moduleImportPrefix.isEmpty then .error (.emptySetting .moduleImportPrefix)
  else .ok ⟨.importLine, "imports", findAnchor s, splice⟩

end Graft.Splice.Imports
