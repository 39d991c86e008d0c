import Graft.Toml.Scan

/-!
# Numbers of TOML

Integers of 64 bits in base ten, sixteen, eight or two, and decimal fractions of double precision.
Single underscores may stand between digits.
-/

namespace Graft.Toml

/-- A digit after at most one underscore. -/
def nextDigit? (isDigit : Char → Bool) : Scanner Char
  | '_' :: c :: t => if isDigit c then some (c, t) else none
  | c :: t => if isDigit c then some (c, t) else none
  | [] => none

/-- Digits, the underscores between them left out. -/
def digits? (isDigit : Char → Bool) : Scanner Text
  | c :: t =>
    if isDigit c then
      let (cs, t) := many (nextDigit? isDigit) t
      some (c :: cs, t)
    else none
  | [] => none

def isDecimal (c : Char) : Bool := '0' ≤ c && c ≤ '9'

def isHexadecimal (c : Char) : Bool :=
  isDecimal c || ('a' ≤ c && c ≤ 'f') || ('A' ≤ c && c ≤ 'F')

def isOctal (c : Char) : Bool := '0' ≤ c && c ≤ '7'

def isBinary (c : Char) : Bool := c == '0' || c == '1'

def digitValue (c : Char) : Nat :=
  if isDecimal c then c.toNat - 0x30
  else if 'a' ≤ c then c.toNat - 0x57
  else c.toNat - 0x37

def ofDigits (base : Nat) (cs : Text) : Nat := cs.foldl (fun n c => n * base + digitValue c) 0

/-- The sign that a text begins with, if it begins with one. -/
def sign : Text → Text × Text
  | '+' :: t => (['+'], t)
  | '-' :: t => (['-'], t)
  | t => ([], t)

/-- The digits of an integer in base ten, which does not begin with a needless zero. -/
def wholeDigits? : Scanner Text
  | '0' :: t => some (['0'], t)
  | t => digits? isDecimal t

/-- The integer that a sign and digits write, if it has 64 bits. -/
def signed? (sign : Text) (n : Nat) : Option Int :=
  if sign = ['-'] then (if n ≤ Nat.pow 2 63 then some (-(n : Int)) else none)
  else if n < Nat.pow 2 63 then some n else none

def decimal? : Scanner Int := fun t => do
  let (s, t) := sign t
  let (cs, t) ← wholeDigits? t
  some (← signed? s (ofDigits 10 cs), t)

/-- An integer in another base, after what announces the base. -/
def based? (base : Nat) (isDigit : Char → Bool) : Scanner Int := fun t => do
  let (cs, t) ← digits? isDigit t
  some (← signed? [] (ofDigits base cs), t)

def integer? : Scanner Int
  | '0' :: 'x' :: t => based? 16 isHexadecimal t
  | '0' :: 'o' :: t => based? 8 isOctal t
  | '0' :: 'b' :: t => based? 2 isBinary t
  | t => decimal? t

/-- The fraction that a text begins with, if it begins with one: `some none` if it does not. -/
def fraction? : Text → Option (Option Text × Text)
  | '.' :: t => (digits? isDecimal t).map fun (cs, t) => (some cs, t)
  | t => some (none, t)

/-- The exponent that a text begins with, as its sign and digits: `some none` if it begins with
none. -/
def exponent? : Text → Option (Option (Text × Text) × Text)
  | [] => some (none, [])
  | c :: t =>
    if c == 'e' || c == 'E' then
      let (s, t) := sign t
      (digits? isDecimal t).map fun (cs, t) => (some (s, cs), t)
    else some (none, c :: t)

/-- Whether `digits · 10 ^ exponent` is too large for a number of double precision: it is not below
the middle between the largest one and the power of two that comes next. -/
def isHuge (digits : Nat) (exponent : Int) : Bool :=
  if digits = 0 then false
  else if 310 < exponent then true
  else if 0 ≤ exponent then
    Nat.pow 2 1024 - Nat.pow 2 970 ≤ digits * Nat.pow 10 exponent.toNat
  else if (Nat.log2 digits : Int) < -exponent then false
  else (Nat.pow 2 1024 - Nat.pow 2 970) * Nat.pow 10 (-exponent).toNat ≤ digits

/-- A decimal fraction, as it is written but for underscores. -/
def decimalFraction? : Scanner Text := fun t => do
  let (s, t) := sign t
  let (whole, t) ← wholeDigits? t
  let (fraction, t) ← fraction? t
  let (exponent, t) ← exponent? t
  if fraction.isNone ∧ exponent.isNone then none
  else
    let places := (fraction.getD []).length
    let shift : Int := match exponent with
      | some (['-'], cs) => -(ofDigits 10 cs : Int)
      | some (_, cs) => ofDigits 10 cs
      | none => 0
    if s ≠ ['-'] ∧ isHuge (ofDigits 10 (whole ++ fraction.getD [])) (shift - places) then none
    else
      some (s ++ whole ++ (fraction.elim [] ('.' :: ·)) ++
        (exponent.elim [] fun (s, cs) => 'e' :: s ++ cs), t)

/-- A number that is none, or infinite. -/
def special? : Scanner Text := fun t =>
  let (s, t) := sign t
  match t with
  | 'i' :: 'n' :: 'f' :: t => some (s ++ "inf".toList, t)
  | 'n' :: 'a' :: 'n' :: t => some (s ++ "nan".toList, t)
  | _ => none

/-- A number that is no integer. -/
def float? : Scanner Text := fun t => (decimalFraction? t).or (special? t)

end Graft.Toml
