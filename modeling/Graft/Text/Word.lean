import Graft.Text.Basic
import Graft.Text.WordRanges

/-!
# Words and identifiers

Word characters, the boundary between a word and what is beside it, and the identifiers that
imports and listing entries name.
-/

namespace Graft.Text

def isLetter (c : Char) : Bool := ('a' ≤ c && c ≤ 'z') || ('A' ≤ c && c ≤ 'Z')

def isDigit (c : Char) : Bool := '0' ≤ c && c ≤ '9'

/-- The characters of a word: letters, marks, digits and connectors of any script. -/
def isWord (c : Char) : Bool :=
  let n := c.toNat
  if n < 0x80 then isLetter c || isDigit c || c == '_'
  else if n < 0x3000 then inRanges wordRangesLow n
  else if n < 0x10000 then inRanges wordRangesMid n
  else inRanges wordRangesHigh n

/-- The characters an identifier begins with. -/
def isIdentStart (c : Char) : Bool := isLetter c || c == '_' || c == '$'

/-- The characters an identifier goes on with. -/
def isIdentRest (c : Char) : Bool := isWord c || c == '$'

/-- No word goes on at this place: the character before it is absent or not a word character. -/
def beforeWord : Option Char → Bool
  | none => true
  | some c => !isWord c

/-- No word goes on with the text. -/
def afterWord (t : Text) : Bool := beforeWord t.head?

/-- The identifier a text begins with, as long as it goes, and what follows it. -/
def ident? : Text → Option (Text × Text)
  | [] => none
  | c :: t =>
    if isIdentStart c then some (c :: t.takeWhile isIdentRest, t.dropWhile isIdentRest) else none

theorem ident?_append {t name rest : Text} (h : ident? t = some (name, rest)) :
    name ++ rest = t := by
  cases t with
  | nil => simp [ident?] at h
  | cons c t =>
    simp only [ident?] at h
    split at h
    · obtain ⟨rfl, rfl⟩ := Prod.mk.inj (Option.some.inj h)
      simp [List.takeWhile_append_dropWhile]
    · simp at h

end Graft.Text
