import Graft.Text.Indent
import Graft.Text.Pattern
import Graft.Splice.Anchor
import Graft.Splice.Settings

/-!
# Icons

Icons are merged into the list of names that the icon library's import binds.  A name that is bound
already, or comes twice, is left out.
-/

namespace Graft.Splice.Icons

open Text

/-- The list of names, and what follows it from the closing brace on, of the library's import, with
which the text begins. -/
def nameList? (library t : Text) : Option (Text × Text) := do
  let t ← skip? "import".toList t
  let t ← skipSpaced? ['\x7b'] t
  let names := t.takeWhile (· != '\x7d')
  let close := t.dropWhile (· != '\x7d')
  let t ← skip? ['\x7d'] close
  let t ← skipSpaced? "from".toList t
  let t ← skipQuote? (trimStart t)
  let t ← skip? library t
  let _ ← skipQuote? t
  some (names, close)

/-- The indentation of the last line that is not blank, in a list of several lines. -/
def entryIndent (names : Text) : Text :=
  if multiline names then
    match (lines names).reverse.find? fun line => !isBlank line with
    | some line => indentOf line
    | none => []
  else []

/-- The anchor for icons: the list of names. -/
def findAnchor (s : AnchorSettings) (t : Text) : Option Anchor :=
  (leftmost (fun _ => nameList? s.iconLibrary) none t).map fun (_, names, after) =>
    ⟨.iconImport, upTo t (names ++ after), names, after, entryIndent names⟩

/-- The first word of a text, if it has one. -/
def firstWord? (t : Text) : Option Text :=
  let w := (trimStart t).takeWhile fun c => !isSpace c
  if w.isEmpty then none else some w

/-- The names a list binds, each the first word between two commas. -/
def namesOf (list : Text) : List Text := (splitAt ',' list).filterMap firstWord?

/-- The icons, trimmed, that are not in `seen` and did not come before. -/
def fresh (seen : List Text) : List Text → List Text
  | [] => []
  | icon :: icons =>
    let name := trim icon
    if name.isEmpty || seen.contains name then fresh seen icons
    else name :: fresh (name :: seen) icons

/-- The list with icons added behind those it holds.  A list of several lines gets a line for each,
and a comma at the end stays at the end. -/
def extended (list indent : Text) (icons : List Text) : Text :=
  let kept := trimEnd list
  if isBlank kept then ' ' :: joinWith ", ".toList icons ++ [' ']
  else if multiline list then
    let items := icons.map fun icon => '\n' :: indent ++ icon
    if endsWith ',' kept then kept ++ (items.map (· ++ [','])).flatten ++ trailing list
    else kept ++ [','] ++ joinWith [','] items ++ trailing list
  else if endsWith ',' kept then
    kept ++ [' '] ++ joinWith ", ".toList icons ++ [','] ++ trailing list
  else kept ++ ", ".toList ++ joinWith ", ".toList icons ++ trailing list

/-- Merges icons into the list at an anchor. -/
def splice (a : Anchor) (snippets : List Text) : Spliced :=
  let icons := fresh (namesOf a.span) snippets
  if icons.isEmpty then ⟨a.text, 0⟩ else ⟨a.replace (extended a.span a.indent icons), icons.length⟩

/-- The strategy for icons, which needs a library to look for. -/
def strategy (s : AnchorSettings) : Except SetupError Strategy :=
  if s.iconLibrary.isEmpty then .error (.emptySetting .iconLibrary)
  else .ok ⟨.icon, "icons", findAnchor s, splice⟩

end Graft.Splice.Icons
