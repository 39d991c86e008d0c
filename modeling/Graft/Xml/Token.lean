import Graft.Text.Search
import Graft.Xml.Char
import Graft.Xml.Fault

/-!
# Tokens of a document

Readers for the pieces that a document consists of: names, attributes, comments, processing
instructions, character data sections and text.  Each takes the text from a place on and gives what
follows the piece.
-/

namespace Graft.Xml

open Text

/-- A name with a namespace prefix, which is empty when there is none. -/
structure QName where
  pre : Text
  name : Text
  deriving DecidableEq, Repr

def QName.written (q : QName) : Text :=
  if q.pre.isEmpty then q.name else q.pre ++ ':' :: q.name

/-- The first byte of a character in UTF-8, as the character with that number. -/
def leadByte (c : Char) : Char :=
  let n := c.toNat
  if n < 0x80 then c
  else if n < 0x800 then Char.ofNat (0xC0 + n / 0x40)
  else if n < 0x10000 then Char.ofNat (0xE0 + n / 0x1000)
  else Char.ofNat (0xF0 + n / 0x40000)

/-- What follows `w`, which must come next. -/
def expectText (w t : Text) : Except Stop Text :=
  match skip? w t with
  | some rest => .ok rest
  | none => .error ⟨.missingText w, t⟩

/-- What follows the character `c`, which must come next. -/
def expectChar (c : Char) : Text → Except Stop Text
  | [] => .error ⟨.endOfText, []⟩
  | d :: t => if d = c then .ok t else .error ⟨.otherChar c (leadByte d), d :: t⟩

/-- Checks that a document may hold the characters of `run`, which `rest` follows. -/
def checkChars (run rest : Text) : Except Stop Unit :=
  match run.dropWhile isXmlChar with
  | [] => .ok ()
  | c :: r => .error ⟨.forbiddenChar c, c :: r ++ rest⟩

/-- The characters up to `w`, and what follows it. -/
def upToText (w t : Text) : Except Stop (Text × Text) :=
  match cut? w t with
  | some (run, rest) => do
    checkChars run (w ++ rest)
    .ok (run, rest)
  | none => do
    checkChars t []
    .error ⟨.missingText w, []⟩

/-- Whether `t` can stand alone as a name without colons. -/
def isPlainName : Text → Bool
  | [] => false
  | c :: _ => isNameStart c

/-- A name with an optional namespace prefix. -/
def qname (t : Text) : Except Stop (QName × Text) :=
  let run := t.takeWhile isNameChar
  let rest := t.dropWhile isNameChar
  let front := run.takeWhile (· != ':')
  match run.dropWhile (· != ':') with
  | [] => if isPlainName run then .ok (⟨[], run⟩, rest) else .error ⟨.invalidName, t⟩
  | _ :: name =>
    if (front.isEmpty || isPlainName front) && isPlainName name && !name.any (· == ':') then
      .ok (⟨front, name⟩, rest)
    else .error ⟨.invalidName, t⟩

/-- An attribute as it is written. -/
structure RawAttribute where
  name : QName
  value : Text
  /-- The text behind its value, from the closing quote on. -/
  behind : Text
  deriving DecidableEq, Repr

/-- An attribute and what follows it. -/
def rawAttribute (t : Text) : Except Stop (RawAttribute × Text) := do
  let (name, t) ← qname t
  let t ← expectChar '=' (skipWhite t)
  match skipWhite t with
  | [] => .error ⟨.endOfText, []⟩
  | q :: t =>
    if q = '"' ∨ q = '\'' then
      let value := t.takeWhile fun c => c != q && c != '<'
      let behind := t.dropWhile fun c => c != q && c != '<'
      checkChars value behind
      let rest ← expectChar q behind
      .ok (⟨name, value, behind⟩, rest)
    else .error ⟨.otherClass "a quote" (leadByte q), q :: t⟩

/-- What follows a comment, with which the text begins. -/
def comment (t : Text) : Except Stop Text := do
  let (run, rest) ← upToText "-->".toList (t.drop 4)
  if contains "--".toList run || endsWith '-' run then .error ⟨.hyphensInComment, t⟩
  else .ok rest

/-- What follows a processing instruction, with which the text begins. -/
def instruction (t : Text) : Except Stop Text :=
  if startsWith "<?xml ".toList t then .error ⟨.lateDeclaration, t⟩
  else
    let t := t.drop 2
    if isPlainName t then do
      let (_, rest) ← upToText "?>".toList (skipWhite (t.dropWhile isNameChar))
      .ok rest
    else .error ⟨.invalidName, t⟩

/-- Skips white space, which must be there unless the declaration ends here. -/
def declarationGap : Text → Except Stop Text
  | [] => .ok []
  | c :: t =>
    if isWhite c then .ok (skipWhite t)
    else if startsWith "?>".toList (c :: t) then .ok (c :: t)
    else .error ⟨.otherClass "a whitespace" (leadByte c), c :: t⟩

/-- Skips an attribute whose name begins with `w`, if one comes next. -/
def optionalAttribute (w t : Text) : Except Stop (Option Text) :=
  if startsWith w t then (rawAttribute t).map fun (_, rest) => some rest else .ok none

/-- What follows the XML declaration, with which the text begins. -/
def declaration (t : Text) : Except Stop Text := do
  let t ← declarationGap (t.drop 5)
  let _ ← expectText "version".toList t
  let (_, t) ← rawAttribute t
  let t ← declarationGap t
  let t ← match ← optionalAttribute "encoding".toList t with
    | some rest => declarationGap rest
    | none => .ok t
  let t := (← optionalAttribute "standalone".toList t).getD t
  expectText "?>".toList (skipWhite t)

end Graft.Xml
