import Graft.Toml.Scan

/-!
# Strings of TOML

A string stands in double or single quotes, one at each end or three.  In double quotes a backslash
escapes; between three quotes there may be line breaks, the first of which does not count when
nothing stands before it, and one or two quotes.
-/

namespace Graft.Toml

open Text (skip?)

/-- The digit that a character is in base sixteen. -/
def hexValue? (c : Char) : Option Nat :=
  if '0' ≤ c ∧ c ≤ '9' then some (c.toNat - 0x30)
  else if 'a' ≤ c ∧ c ≤ 'f' then some (c.toNat - 0x57)
  else if 'A' ≤ c ∧ c ≤ 'F' then some (c.toNat - 0x37)
  else none

/-- The number that exactly `count` digits of base sixteen write, after `acc`. -/
def hexNumber? (acc : Nat) : Nat → Scanner Nat
  | 0, t => some (acc, t)
  | _ + 1, [] => none
  | count + 1, c :: t => do hexNumber? (acc * 16 + (← hexValue? c)) count t

/-- The character with a number, unless the number is that of a surrogate or too large. -/
def scalar? (n : Nat) : Option Char := if n.isValidChar then some (Char.ofNat n) else none

/-- The character that an escape stands for, read after the backslash. -/
def escape? : Scanner Char
  | 'b' :: t => some ('\x08', t)
  | 't' :: t => some ('\t', t)
  | 'n' :: t => some ('\n', t)
  | 'f' :: t => some ('\x0c', t)
  | 'r' :: t => some ('\r', t)
  | '"' :: t => some ('"', t)
  | '\\' :: t => some ('\\', t)
  | 'u' :: t => do
    let (n, t) ← hexNumber? 0 4 t
    some (← scalar? n, t)
  | 'U' :: t => do
    let (n, t) ← hexNumber? 0 8 t
    some (← scalar? n, t)
  | _ => none

/-- A part of a string in double quotes: a plain character or an escape. -/
def basicPart? : Scanner Text
  | '\\' :: t => (escape? t).map fun (c, t) => ([c], t)
  | c :: t => if isPlain c && c != '"' then some ([c], t) else none
  | [] => none

/-- A part of a string in single quotes. -/
def literalPart? : Scanner Text
  | c :: t => if isPlain c && c != '\'' then some ([c], t) else none
  | [] => none

/-- The blanks and line breaks that a text begins with, left out. -/
def skipLinesFor : Nat → Text → Text
  | 0, t => t
  | fuel + 1, t =>
    let rest := skipBlanks t
    match newline? rest with
    | some rest => skipLinesFor fuel rest
    | none => rest

/-- What follows an escaped line break and the blanks and line breaks after it, read after the
backslash. -/
def continuation? (t : Text) : Option Text := do
  let rest ← newline? (skipBlanks t)
  some (skipLinesFor rest.length rest)

def newlinePart? (t : Text) : Option (Text × Text) := (newline? t).map fun rest => (['\n'], rest)

/-- One or two quotes that are followed by something else. -/
def innerQuotes? (q : Char) (t : Text) : Option (Text × Text) :=
  let quotes := t.takeWhile (· == q)
  let rest := t.dropWhile (· == q)
  if quotes.isEmpty ∨ 3 ≤ quotes.length ∨ rest.isEmpty then none else some (quotes, rest)

/-- A part of a string between three double quotes. -/
def multilineBasicPart? (t : Text) : Option (Text × Text) :=
  match t with
  | '\\' :: rest =>
    match continuation? rest with
    | some rest => some ([], rest)
    | none => basicPart? t
  | _ => (newlinePart? t).or ((basicPart? t).or (innerQuotes? '"' t))

/-- A part of a string between three single quotes. -/
def multilineLiteralPart? (t : Text) : Option (Text × Text) :=
  (newlinePart? t).or ((literalPart? t).or (innerQuotes? '\'' t))

/-- The text of parts up to a quote. -/
def singleLine? (q : Char) (part : Scanner Text) : Scanner Text := fun t => do
  let (parts, t) := many part t
  some (parts.flatten, ← skip? [q] t)

/-- The text of parts up to three quotes; two more quotes may stand before these. -/
def multiline? (q : Char) (part : Scanner Text) : Scanner Text := fun t => do
  let (parts, t) := many part ((newline? t).getD t)
  let quotes := t.takeWhile (· == q)
  if 3 ≤ quotes.length then
    let own := min (quotes.length - 3) 2
    some (parts.flatten ++ List.replicate own q, t.drop (own + 3))
  else none

/-- A string between one quote at each end, as keys may be. -/
def quoted? : Scanner Text
  | '"' :: t => singleLine? '"' basicPart? t
  | '\'' :: t => singleLine? '\'' literalPart? t
  | _ => none

def string? : Scanner Text
  | '"' :: '"' :: '"' :: t => multiline? '"' multilineBasicPart? t
  | '\'' :: '\'' :: '\'' :: t => multiline? '\'' multilineLiteralPart? t
  | t => quoted? t

end Graft.Toml
