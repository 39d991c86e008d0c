import Graft.Text.Search

/-!
# Scanning TOML

The characters and the separators of TOML, and repetition.  A scanner takes a text to what it found
and the rest of the text; it answers `none` if the text does not begin with what it looks for.
-/

namespace Graft.Toml

open Text (skip?)

/-- Reads the beginning of a text. -/
abbrev Scanner (α : Type) := Text → Option (α × Text)

/-- The characters that may stand in comments and, but for its quotes, in strings. -/
def isPlain (c : Char) : Bool := c == '\t' || (0x20 ≤ c.toNat && c.toNat != 0x7F)

/-- What follows a line break. -/
def newline? : Text → Option Text
  | '\n' :: t => some t
  | '\r' :: '\n' :: t => some t
  | _ => none

/-- The text without the spaces and tabs it begins with. -/
def skipBlanks (t : Text) : Text := t.dropWhile Text.isIndent

/-- The text without the comment it begins with, if it begins with one. -/
def skipComment (t : Text) : Text :=
  match t with
  | '#' :: rest => rest.dropWhile isPlain
  | _ => t

/-- What follows the end of a line: spaces, a comment, and a line break or the end of the text. -/
def lineEnd? (t : Text) : Option Text :=
  let rest := skipComment (skipBlanks t)
  if rest.isEmpty then some [] else newline? rest

/-- The text without the spaces, line breaks and comments it begins with. -/
def skipGapFor : Nat → Text → Text
  | 0, t => t
  | fuel + 1, t =>
    match skipBlanks t with
    | '#' :: rest => skipGapFor fuel (rest.dropWhile isPlain)
    | rest =>
      match newline? rest with
      | some rest => skipGapFor fuel rest
      | none => rest

/-- The text without the spaces, line breaks and comments it begins with. -/
def skipGap (t : Text) : Text := skipGapFor t.length t

/-- As many of an item as there are, at most `fuel`. -/
def manyFor {α : Type} (item : Scanner α) : Nat → Text → List α × Text
  | 0, t => ([], t)
  | fuel + 1, t =>
    match item t with
    | some (a, rest) =>
      let (as, rest) := manyFor item fuel rest
      (a :: as, rest)
    | none => ([], t)

/-- As many of an item as there are.  An item must not be empty. -/
def many {α : Type} (item : Scanner α) (t : Text) : List α × Text := manyFor item t.length t

def after {α : Type} (sep : Char) (item : Scanner α) : Scanner α := fun t => do
  item (← skip? [sep] t)

/-- One or more items with a separator between each two. -/
def separated {α : Type} (sep : Char) (item : Scanner α) : Scanner (List α) := fun t => do
  let (a, t) ← item t
  let (as, t) := many (after sep item) t
  some (a :: as, t)

end Graft.Toml
