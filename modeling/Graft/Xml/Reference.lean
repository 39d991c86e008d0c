import Graft.Xml.Token

/-!
# References and line ends

Text and attribute values are read in two steps.  `pieces` replaces references and keeps apart the
characters that came from one; `lineEnds` and `attributeValue` then turn line ends into newlines or
spaces, which characters from references never become.  `lineEnds_plain`: without carriage returns
nothing changes.
-/

namespace Graft.Xml

open Text

/-- A character of a text, and whether a reference stands for it. -/
inductive Piece where
  | plain (c : Char)
  /-- A character that a reference stands for. -/
  | referred (c : Char)
  deriving DecidableEq, Repr

/-- The character without regard to how it was written. -/
def Piece.char : Piece → Char
  | .plain c => c
  | .referred c => c

/-- What a reference names. -/
inductive Reference where
  /-- A character, by its number or by a name that XML defines. -/
  | char (c : Char)
  | entity (name : Text)
  deriving DecidableEq, Repr

/-- The value of a digit in bases up to sixteen. -/
def digitValue (c : Char) : Nat :=
  let n := c.toNat
  if n < 0x3A then n - 0x30 else if n < 0x47 then n - 0x37 else n - 0x57

def numberOf (base : Nat) (digits : Text) : Nat :=
  digits.foldl (fun n d => n * base + digitValue d) 0

/-- Whether the character is a digit of base sixteen. -/
def isHexDigit (c : Char) : Bool :=
  ('0' ≤ c && c ≤ '9') || ('a' ≤ c && c ≤ 'f') || ('A' ≤ c && c ≤ 'F')

/-- Whether the character is a digit of base ten. -/
def isDecimalDigit (c : Char) : Bool := '0' ≤ c && c ≤ '9'

/-- The character with a number of at most 32 bits.  A number that no character has stands for the
replacement character. -/
def charOf? (n : Nat) : Option Char :=
  if n < 0x100000000 then
    let c := if n.isValidChar then Char.ofNat n else '\ufffd'
    if isXmlChar c then some c else none
  else none

/-- The character that digits stand for, and what follows them up to the semicolon. -/
def numbered? (base : Nat) (isDigit : Char → Bool) (t : Text) : Option (Reference × Text) := do
  let digits := t.takeWhile isDigit
  if digits.isEmpty then none
  else
    let c ← charOf? (numberOf base digits)
    let rest ← skip? ";".toList (t.dropWhile isDigit)
    some (.char c, rest)

/-- What a name refers to: a character for the five names that XML defines. -/
def Reference.ofName (name : Text) : Reference :=
  if name = "quot".toList then .char '"'
  else if name = "amp".toList then .char '&'
  else if name = "apos".toList then .char '\''
  else if name = "lt".toList then .char '<'
  else if name = "gt".toList then .char '>'
  else .entity name

/-- A reference, behind the ampersand of which the text begins, and what follows it. -/
def reference? : Text → Option (Reference × Text)
  | '#' :: 'x' :: t => numbered? 16 isHexDigit t
  | '#' :: t => numbered? 10 isDecimalDigit t
  | t =>
    if isPlainName t then
      (skip? ";".toList (t.dropWhile isNameChar)).map fun rest =>
        (.ofName (t.takeWhile isNameChar), rest)
    else none

/-- The text made up by parts that begin behind an ampersand, and what follows them. -/
def joinParts (parts : List Text) (after : Text) : Text := (parts.map ('&' :: ·)).flatten ++ after

/-- The pieces of the parts of a text that begin behind an ampersand, `after` being what follows
them. -/
def referredParts (after : Text) : List Text → Except Stop (List Piece)
  | [] => .ok []
  | part :: parts =>
    match reference? part with
    | none => .error ⟨.malformedReference, joinParts (part :: parts) after⟩
    | some (.entity name, _) => .error ⟨.unknownReference name, joinParts (part :: parts) after⟩
    | some (.char c, rest) => do
      let pieces ← referredParts after parts
      .ok (.referred c :: rest.map .plain ++ pieces)

/-- The pieces of a text, `after` being what follows it. -/
def pieces (t after : Text) : Except Stop (List Piece) :=
  match splitAt '&' t with
  | [] => .ok []
  | part :: parts => do
    let rest ← referredParts after parts
    .ok (part.map .plain ++ rest)

/-- The characters of a text with its line ends as newlines.  `out` holds what is written so far,
last character first; `verbatim` says that a reference came just before, behind which a character is
taken as it is. -/
def lineEndsFrom (out : Text) (verbatim : Bool) : List Piece → Text
  | [] => out.reverse
  | .referred c :: ps => lineEndsFrom (c :: out) true ps
  | .plain c :: ps =>
    if verbatim then lineEndsFrom (c :: out) false ps
    else
      let written := if c = '\r' ∧ ps = [] then '\n' else c
      match out with
      | '\r' :: out =>
        if c = '\n' then lineEndsFrom ('\n' :: out) false ps
        else lineEndsFrom (written :: '\n' :: out) false ps
      | out => lineEndsFrom (written :: out) false ps

/-- The characters of a text with its line ends as newlines. -/
def lineEnds (ps : List Piece) : Text := lineEndsFrom [] false ps

/-- The characters of an attribute's value, in which each line end and each tab is a space. -/
def attributeValue : List Piece → Text
  | [] => []
  | .referred c :: ps => c :: attributeValue ps
  | .plain '\r' :: .plain '\n' :: ps => ' ' :: attributeValue ps
  | .plain c :: ps => (if isWhite c then ' ' else c) :: attributeValue ps

theorem lineEndsFrom_plain (t out : Text) (ht : '\r' ∉ t) (ho : '\r' ∉ out) :
    lineEndsFrom out false (t.map .plain) = out.reverse ++ t := by
  induction t generalizing out with
  | nil => simp [lineEndsFrom]
  | cons c t ih =>
    simp only [List.mem_cons, not_or] at ht
    have hc : ¬ c = '\r' := fun h => ht.1 h.symm
    simp only [List.map_cons, lineEndsFrom, Bool.false_eq_true, if_false, hc, false_and]
    split
    · simp at ho
    · rw [ih (c :: out) ht.2 (by simp [ho, ht.1])]
      simp

theorem lineEnds_plain (t : Text) (h : '\r' ∉ t) : lineEnds (t.map .plain) = t :=
  lineEndsFrom_plain t [] h (by simp)

end Graft.Xml
