import Graft.Toml.Number

/-!
# Dates and times of TOML

A date, a time of day, or both with a space or a `T` between them, and then perhaps an offset.
-/

namespace Graft.Toml

open Text (skip?)

/-- Exactly `count` decimal digits. -/
def fixedDigits? : Nat → Scanner Text
  | 0, t => some ([], t)
  | _ + 1, [] => none
  | count + 1, c :: t => do
    if isDecimal c then
      let (cs, t) ← fixedDigits? count t
      some (c :: cs, t)
    else none

/-- A number of two digits between bounds. -/
def twoDigits? (low high : Nat) : Scanner Text := fun t => do
  let (cs, t) ← fixedDigits? 2 t
  if low ≤ ofDigits 10 cs ∧ ofDigits 10 cs ≤ high then some (cs, t) else none

def isLeap (year : Nat) : Bool := year % 4 == 0 && (year % 100 != 0 || year % 400 == 0)

def daysIn (year month : Nat) : Nat :=
  if month = 2 then (if isLeap year then 29 else 28)
  else if month ∈ [4, 6, 9, 11] then 30
  else 31

def date? : Scanner Text := fun t => do
  let (year, t) ← fixedDigits? 4 t
  let t ← skip? ['-'] t
  let (month, t) ← twoDigits? 1 12 t
  let t ← skip? ['-'] t
  let (day, t) ← twoDigits? 1 (daysIn (ofDigits 10 year) (ofDigits 10 month)) t
  some (year ++ '-' :: month ++ '-' :: day, t)

/-- The fraction of a second, if there is one. -/
def secondFraction (t : Text) : Text × Text :=
  match t with
  | '.' :: rest =>
    let cs := rest.takeWhile isDecimal
    if cs.isEmpty then ([], t) else ('.' :: cs, rest.dropWhile isDecimal)
  | _ => ([], t)

def time? : Scanner Text := fun t => do
  let (hour, t) ← twoDigits? 0 23 t
  let t ← skip? [':'] t
  let (minute, t) ← twoDigits? 0 59 t
  let t ← skip? [':'] t
  let (second, t) ← twoDigits? 0 60 t
  let (fraction, t) := secondFraction t
  some (hour ++ ':' :: minute ++ ':' :: second ++ fraction, t)

/-- An offset with hours and minutes, after its sign. -/
def hoursAndMinutes? (s : Char) : Scanner Text := fun t => do
  let (hour, t) ← twoDigits? 0 23 t
  let t ← skip? [':'] t
  let (minute, t) ← twoDigits? 0 59 t
  some (s :: hour ++ ':' :: minute, t)

/-- An offset, if there is one. -/
def offset? (t : Text) : Option (Text × Text) :=
  match t with
  | 'Z' :: rest | 'z' :: rest => some (['Z'], rest)
  | '+' :: rest => hoursAndMinutes? '+' rest
  | '-' :: rest => hoursAndMinutes? '-' rest
  | _ => some ([], t)

/-- What may stand between a date and a time. -/
def isTimeMark (c : Char) : Bool := c == 'T' || c == 't' || c == ' '

/-- A time of day after what stands before it, with its offset, if there is one. -/
def timeAfterDate? (t : Text) : Option (Text × Text) :=
  match t with
  | c :: rest =>
    if isTimeMark c then
      match time? rest with
      | some (time, rest) => (offset? rest).map fun (offset, rest) => ('T' :: time ++ offset, rest)
      | none => some ([], t)
    else some ([], t)
  | [] => some ([], t)

/-- A date, a time, or both. -/
def moment? : Scanner Text := fun t =>
  match date? t with
  | some (date, t) => (timeAfterDate? t).map fun (time, t) => (date ++ time, t)
  | none => time? t

end Graft.Toml
