import Graft.Text.Line

/-!
# Re-indenting a snippet

`indentBlock` moves a snippet under a given indentation: the indentation its lines share is taken
off, the new one is put on, and blank lines become empty.
-/

namespace Graft.Text

/-- The spaces and tabs a line begins with. -/
def indentOf (line : Text) : Text := line.takeWhile isIndent

/-- How many spaces and tabs a line begins with. -/
def indentWidth (line : Text) : Nat := (indentOf line).length

/-- The width of the indentation that the lines of a block share.  A first line without indentation
counts as already trimmed, so that the lines after it decide alone. -/
def sharedWidth : List Text → Nat
  | [] => 0
  | first :: rest =>
    match ((rest.filter fun line => !isBlank line).map indentWidth).min? with
    | none => indentWidth first
    | some width => if indentWidth first = 0 then width else min width (indentWidth first)

/-- The line without the first `width` of the spaces and tabs it begins with. -/
def outdent (width : Nat) (line : Text) : Text := line.drop (min width (indentWidth line))

/-- The lines of a snippet from its first to its last that is not blank. -/
def blockLines (snippet : Text) : List Text := (lines (trimEnd snippet)).dropWhile isBlank

/-- The snippet re-indented under `indent`. -/
def indentBlock (snippet indent : Text) : Text :=
  let block := blockLines snippet
  let width := sharedWidth block
  joinWith ['\n'] (block.map fun line => if isBlank line then [] else indent ++ outdent width line)

end Graft.Text
