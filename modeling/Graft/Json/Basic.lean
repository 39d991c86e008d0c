import Graft.Text.Basic

/-!
# JSON

JSON values, and the layout in which they are printed: two spaces for each level, one member a line.
-/

namespace Graft

/-- A JSON value.  Members keep their order. -/
inductive Json where
  | null
  | boolean (value : Bool)
  /-- The number `digits · 10 ^ (-places)`. -/
  | number (digits : Int) (places : Nat)
  | string (value : Text)
  | array (items : List Json)
  | object (members : List (String × Json))
  deriving Repr, Inhabited

namespace Json

def ofNat (n : Nat) : Json := .number n 0

/-- A text that may be absent. -/
def ofOption : Option Text → Json
  | none => .null
  | some t => .string t

/-- A text given as a string. -/
def ofString (s : String) : Json := .string s.toList

def hexDigit (n : Nat) : Char := Char.ofNat (if n < 10 then 0x30 + n else 0x57 + n)

/-- A character as it is written inside quotes. -/
def escaped (c : Char) : Text :=
  if c = '"' then ['\\', '"']
  else if c = '\\' then ['\\', '\\']
  else if c = '\n' then ['\\', 'n']
  else if c = '\r' then ['\\', 'r']
  else if c = '\t' then ['\\', 't']
  else if c = '\x08' then ['\\', 'b']
  else if c = '\x0c' then ['\\', 'f']
  else if c.toNat < 0x20 then
    ['\\', 'u', '0', '0', hexDigit (c.toNat / 16), hexDigit (c.toNat % 16)]
  else [c]

def quoted (t : Text) : Text := '"' :: (t.map escaped).flatten ++ ['"']

/-- A line break followed by the indentation of a level. -/
def lineBreak (level : Nat) : Text := '\n' :: List.replicate (2 * level) ' '

/-- Items one a line inside brackets; without items the brackets alone. -/
def bracketed (level : Nat) (opening closing : Char) (items : List Text) : Text :=
  if items.isEmpty then [opening, closing]
  else
    opening :: Text.joinWith [','] (items.map (lineBreak (level + 1) ++ ·)) ++
      lineBreak level ++ [closing]

def numberText (digits : Int) (places : Nat) : Text :=
  (toString digits).toList ++ if places = 0 then [] else "e-".toList ++ (toString places).toList

mutual

/-- A value, at a level of indentation. -/
def renderAt (level : Nat) : Json → Text
  | .null => "null".toList
  | .boolean b => (if b then "true" else "false").toList
  | .number digits places => numberText digits places
  | .string t => quoted t
  | .array items => bracketed level '[' ']' (renderItems (level + 1) items)
  | .object members => bracketed level '\x7b' '\x7d' (renderMembers (level + 1) members)

/-- Values, at a level of indentation. -/
def renderItems (level : Nat) : List Json → List Text
  | [] => []
  | v :: vs => renderAt level v :: renderItems level vs

/-- Members, at a level of indentation. -/
def renderMembers (level : Nat) : List (String × Json) → List Text
  | [] => []
  | (key, v) :: ms =>
    (quoted key.toList ++ ": ".toList ++ renderAt level v) :: renderMembers level ms

end

def render (v : Json) : Text := renderAt 0 v

end Json

end Graft
