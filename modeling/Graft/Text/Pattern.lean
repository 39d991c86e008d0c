import Graft.Text.Word
import Graft.Text.Search

/-!
# Pieces of patterns

Matchers for the shapes that anchors and metadata are found by.  Each takes the text from a place on
and gives what is left behind the match; a pattern is some of them in sequence.  Blanks are skipped
as far as the word that must follow them allows: a configured word may itself begin with blanks.
-/

namespace Graft.Text

/-- Skips blanks, then `w`; of several ways the one with the most blanks in front. -/
def skipSpaced? (w : Text) : Text → Option Text
  | [] => skip? w []
  | c :: t => if isSpace c then (skipSpaced? w t).or (skip? w (c :: t)) else skip? w (c :: t)

/-- Skips at least one blank, then `w`; of several ways the one with the most blanks in front. -/
def skipApart? (w : Text) : Text → Option Text
  | [] => none
  | c :: t => if isSpace c then skipSpaced? w t else none

/-- Skips all blanks, of which there must be at least one. -/
def skipSpaces? : Text → Option Text
  | [] => none
  | c :: t => if isSpace c then some (trimStart t) else none

/-- Skips a double or a single quote. -/
def skipQuote? : Text → Option Text
  | [] => none
  | c :: t => if c = '"' ∨ c = '\'' then some t else none

/-- Skips a semicolon if there is one. -/
def skipSemicolon : Text → Text
  | ';' :: t => t
  | t => t

/-- Skips the end of a line: a newline, a carriage return and a newline, or the end of the text. -/
def skipLineEnd? : Text → Option Text
  | [] => some []
  | '\n' :: t => some t
  | '\r' :: '\n' :: t => some t
  | _ => none

/-- The characters up to the first that is a quote of either kind. -/
def unquoted (t : Text) : Text := t.takeWhile fun c => c != '"' && c != '\''

/-- What follows the characters before the first quote of either kind. -/
def fromQuote (t : Text) : Text := t.dropWhile fun c => c != '"' && c != '\''

theorem skipSpaced?_eq_append {w t rest : Text} (h : skipSpaced? w t = some rest) :
    ∃ gap, isBlank gap ∧ t = gap ++ w ++ rest := by
  induction t with
  | nil => exact ⟨[], rfl, by simpa using skip?_eq_some_iff.1 h⟩
  | cons c t ih =>
    simp only [skipSpaced?] at h
    split at h
    · rename_i hc
      rcases Option.or_eq_some_iff.1 h with h | ⟨_, h⟩
      · obtain ⟨gap, hg, rfl⟩ := ih h
        exact ⟨c :: gap, by simp_all [isBlank], rfl⟩
      · exact ⟨[], rfl, by simpa using skip?_eq_some_iff.1 h⟩
    · exact ⟨[], rfl, by simpa using skip?_eq_some_iff.1 h⟩

end Graft.Text
