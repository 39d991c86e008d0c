import Graft.Text.Comment
import Graft.Text.Indent
import Graft.Text.Pattern
import Graft.Splice.Anchor
import Graft.Splice.Settings

/-!
# Listing entries

Entries are added at the end of the typed array's body, with an empty line between each two.  The
comma that separates them from what was there goes behind its last code, in front of any comment.
-/

namespace Graft.Splice.Entries

open Text

/-- What follows the opening bracket of the array's declaration, with which the text begins. -/
def declaration? (name type t : Text) : Option Text := do
  let t ← skip? "const".toList t
  let t ← skipApart? name t
  let t ← skipSpaced? ":".toList t
  let t ← skipSpaced? type t
  let t ← skip? "[]".toList t
  let t ← skipSpaced? "=".toList t
  skipSpaced? "[".toList t

def close : Text := "];".toList

/-- The array's body, up to the first `];`, and what follows it from there on. -/
def body? (name type t : Text) : Option (Text × Text) := do
  let t ← declaration? name type t
  let (body, after) ← cut? close t
  some (body, close ++ after)

/-- The anchor for entries: the array's body. -/
def findAnchor (s : AnchorSettings) (t : Text) : Option Anchor :=
  (leftmost (fun _ => body? s.listName s.listType) none t).map fun (_, body, after) =>
    ⟨.listDeclaration, upTo t (body ++ after), body, after, s.listIndent⟩

/-- The entries under the indentation, with a comma and an empty line between each two. -/
def block (indent : Text) (snippets : List Text) : Text :=
  joinWith ",\n\n".toList (snippets.map fun s => indentBlock s indent)

/-- The body with a block of entries added behind those it holds. -/
def extended (body added : Text) : Text :=
  let kept := trimEnd body
  if isBlank kept then '\n' :: added ++ ['\n']
  else
    match codeCut? kept with
    | none => kept ++ ['\n'] ++ added ++ ['\n']
    | some (code, rest) =>
      if endsWith ',' code then kept ++ "\n\n".toList ++ added ++ ",\n".toList
      else code ++ [','] ++ rest ++ "\n\n".toList ++ added ++ ['\n']

/-- Adds entries to the body at an anchor. -/
def splice (a : Anchor) (snippets : List Text) : Spliced :=
  ⟨a.replace (extended a.span (block a.indent snippets)), snippets.length⟩

/-- The strategy for entries, which needs the array's name and type. -/
def strategy (s : AnchorSettings) : Except SetupError Strategy :=
  if s.listName.isEmpty then .error (.emptySetting .listName)
  else if s.listType.isEmpty then .error (.emptySetting .listType)
  else .ok ⟨.listEntry, "list", findAnchor s, splice⟩

/-- The strategy for entries that the default settings give. -/
def standard : Strategy := ⟨.listEntry, "list", findAnchor {}, splice⟩

theorem strategy_default : strategy {} = .ok standard := rfl

end Graft.Splice.Entries
