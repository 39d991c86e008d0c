import Graft.Text.Line
import Graft.Text.Search

/-!
# Line comments

A `//` opens a comment unless it stands in a string literal.  `Quoting` is the state of a scan
along a line, `commentCut?` splits a line at its comment, and `codeCut?` splits a text after its
last code.
-/

namespace Graft.Text

/-- Where a scan along a line stands with respect to string literals. -/
inductive Quoting where
  | code
  /-- Inside the literal opened by this quote. -/
  | quoted (quote : Char)
  /-- Inside the literal opened by this quote, just after a backslash. -/
  | escaped (quote : Char)
  deriving DecidableEq, Repr

/-- The characters that open a string literal. -/
def isQuote (c : Char) : Bool := c == '"' || c == '\'' || c == '\x60'

/-- The state after one more character. -/
def Quoting.next : Quoting → Char → Quoting
  | .code, c => if isQuote c then .quoted c else .code
  | .quoted q, c => if c = '\\' then .escaped q else if c = q then .code else .quoted q
  | .escaped q, _ => .quoted q

/-- The parts of a line before and from its comment on, for a scan that begins in state `s`. -/
def commentCut? : Quoting → Text → Option (Text × Text)
  | _, [] => none
  | s, c :: t =>
    if s = .code ∧ startsWith "//".toList (c :: t) then some ([], c :: t)
    else (commentCut? (s.next c) t).map fun (code, comment) => (c :: code, comment)

/-- A line up to its comment. -/
def codePart (line : Text) : Text :=
  match commentCut? .code line with
  | some (code, _) => code
  | none => line

/-- The parts of some lines up to and after the last code on them: comments and the blank characters
before them are no code. -/
def codeCutLines? : List Text → Option (Text × Text)
  | [] => none
  | line :: lines =>
    match codeCutLines? lines with
    | some (front, rest) => some (line ++ front, rest)
    | none =>
      let code := trimEnd (codePart line)
      if code.isEmpty then none else some (code, line.drop code.length ++ lines.flatten)

/-- The parts of a text up to and after its last code, if it holds any. -/
def codeCut? (t : Text) : Option (Text × Text) := codeCutLines? (lineChunks t)

theorem commentCut?_eq_append {s : Quoting} {line code comment : Text}
    (h : commentCut? s line = some (code, comment)) : line = code ++ comment := by
  induction line generalizing s code with
  | nil => simp [commentCut?] at h
  | cons c t ih =>
    simp only [commentCut?] at h
    split at h
    · obtain ⟨rfl, rfl⟩ := Prod.mk.inj (Option.some.inj h)
      rfl
    · obtain ⟨⟨a, b⟩, hc, hp⟩ := Option.map_eq_some_iff.1 h
      obtain ⟨rfl, rfl⟩ := Prod.mk.inj hp
      rw [ih hc, List.cons_append]

theorem codePart_isPrefix (line : Text) : codePart line <+: line := by
  unfold codePart
  split
  · rename_i code comment h
    exact ⟨comment, (commentCut?_eq_append h).symm⟩
  · exact List.prefix_rfl

end Graft.Text
