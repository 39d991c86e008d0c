import Graft.Text.Basic

/-!
# Lines

A line runs up to and with its newline; the last one may lack it.  `flatten_lineChunks` says that
the lines, newlines included, make up the text.
-/

namespace Graft.Text

/-- The lines of a text, each with the newline that ends it. -/
def lineChunks : Text → List Text
  | [] => []
  | c :: t =>
    if c = '\n' then [c] :: lineChunks t
    else
      match lineChunks t with
      | [] => [[c]]
      | line :: lines => (c :: line) :: lines

/-- Whether the text goes over more than one line. -/
def multiline (t : Text) : Bool := t.any (· == '\n')

/-- A line without its newline, and without a carriage return just before that. -/
def chomp (line : Text) : Text :=
  match line.reverse with
  | '\n' :: '\r' :: r => r.reverse
  | '\n' :: r => r.reverse
  | _ => line

/-- The lines of a text without what ends them.  An empty last line does not count. -/
def lines (t : Text) : List Text := (lineChunks t).map chomp

/-- What the last line of a text holds so far: the part after the last newline. -/
def lastLine (t : Text) : Text := (t.reverse.takeWhile (· != '\n')).reverse

/-- The part of a text up to and with its last newline. -/
def beforeLastLine (t : Text) : Text := (t.reverse.dropWhile (· != '\n')).reverse

/-- The rest of the first line, newline included, and the lines after it. -/
def splitLine : Text → Text × Text
  | [] => ([], [])
  | c :: t =>
    if c = '\n' then ([c], t)
    else
      let (line, rest) := splitLine t
      (c :: line, rest)

theorem flatten_lineChunks (t : Text) : (lineChunks t).flatten = t := by
  induction t with
  | nil => rfl
  | cons c t ih =>
    simp only [lineChunks]
    split
    · simp [ih]
    · split
      · rename_i h; rw [h] at ih; simpa using ih
      · rename_i h; rw [h] at ih; simpa using ih

theorem beforeLastLine_append_lastLine (t : Text) : beforeLastLine t ++ lastLine t = t := by
  rw [beforeLastLine, lastLine, ← List.reverse_append, List.takeWhile_append_dropWhile,
    List.reverse_reverse]

end Graft.Text
