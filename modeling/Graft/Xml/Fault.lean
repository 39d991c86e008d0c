import Graft.Text.Line
import Graft.Text.Search

/-!
# Faults of a document

Why a document is not well formed, and where.  A reader stops with a `Cause` and the text it could
not read; `Fault.of` turns that text into a line and a column.
-/

namespace Graft.Xml

/-- A place in a text, counted from one. -/
structure Position where
  line : Nat
  /-- The number of the character on its line. -/
  column : Nat
  deriving DecidableEq, Repr

/-- The place in a text at which its suffix `rest` begins. -/
def Position.before (t rest : Text) : Position :=
  let front := Text.upTo t rest
  ⟨List.count '\n' front + 1, (Text.lastLine front).length + 1⟩

def Position.message (p : Position) : String := toString p.line ++ ":" ++ toString p.column

/-- Why a document is not well formed. -/
inductive Cause where
  | noRoot
  /-- The text ends with elements open. -/
  | unclosedRoot
  | doctype
  /-- The text ends where more must follow. -/
  | endOfText
  | invalidName
  /-- A character that no document may hold. -/
  | forbiddenChar (c : Char)
  /-- Another character stands where this one must. -/
  | otherChar (expected found : Char)
  /-- Another character stands where one of this class must. -/
  | otherClass (expected : String) (found : Char)
  | missingText (expected : Text)
  /-- A comment holds two hyphens, or ends in one. -/
  | hyphensInComment
  /-- Text holds the end of a character data section. -/
  | sectionEndInText
  | unknownToken
  /-- An XML declaration stands behind the start of the document. -/
  | lateDeclaration
  | malformedReference
  /-- A reference to an entity that is not declared. -/
  | unknownReference (name : Text)
  | duplicateAttribute (name : Text)
  /-- A namespace prefix is declared twice. -/
  | duplicateNamespace (name : Text)
  /-- A namespace prefix is not declared. -/
  | unknownNamespace (name : Text)
  /-- The prefix of namespace declarations is used for an element. -/
  | reservedPrefix
  /-- The `xml` prefix is bound to another namespace. -/
  | xmlPrefixRebound
  /-- Another prefix is bound to the `xml` namespace. -/
  | xmlNamespaceBound
  /-- The namespace of namespace declarations is bound. -/
  | xmlnsNamespaceBound
  /-- A closing tag does not match the open element. -/
  | mismatchedClose (expected found : Text)
  deriving DecidableEq, Repr

/-- Where and why a reader stops: it could not read `rest`. -/
structure Stop where
  cause : Cause
  /-- The text from the fault on. -/
  rest : Text
  deriving DecidableEq, Repr

/-- Why and where a document is not well formed. -/
structure Fault where
  cause : Cause
  position : Position
  deriving DecidableEq, Repr

/-- Causes that concern the document as a whole, and are reported at its start. -/
def Cause.isGlobal : Cause → Bool
  | .noRoot | .unclosedRoot | .doctype | .endOfText => true
  | _ => false

/-- The fault in text `t` that a reader stopped at. -/
def Fault.of (t : Text) (s : Stop) : Fault :=
  ⟨s.cause, if s.cause.isGlobal then ⟨1, 1⟩ else Position.before t s.rest⟩

/-- The digits of a number in base sixteen. -/
def hexDigits (n : Nat) : String := String.ofList (Nat.toDigits 16 n)

/-- A forbidden character in quotes, by its number. -/
def quotedChar (c : Char) : String :=
  if c.toNat = 0 then "'\\0'" else "'\\u\x7b" ++ hexDigits c.toNat ++ "\x7d'"

def Fault.message (f : Fault) : String :=
  let place := " at " ++ f.position.message
  let shown := String.ofList
  match f.cause with
  | .noRoot => "the document does not have a root node"
  | .unclosedRoot => "the root node was opened but never closed"
  | .doctype => "XML with DTD detected"
  | .endOfText => "unexpected end of stream"
  | .invalidName => "invalid name token" ++ place
  | .forbiddenChar c => "a non-XML character " ++ quotedChar c ++ " found" ++ place
  | .otherChar e d => "expected '" ++ shown [e] ++ "' not '" ++ shown [d] ++ "'" ++ place
  | .otherClass e d => "expected " ++ e ++ " not '" ++ shown [d] ++ "'" ++ place
  | .missingText e => "expected '" ++ shown e ++ "'" ++ place
  | .hyphensInComment => "comment" ++ place ++ " contains '--'"
  | .sectionEndInText => "']]>'" ++ place ++ " is not allowed inside a character data"
  | .unknownToken => "unknown token" ++ place
  | .lateDeclaration => "unexpected XML declaration" ++ place
  | .malformedReference => "malformed entity reference" ++ place
  | .unknownReference n => "unknown entity reference '" ++ shown n ++ "'" ++ place
  | .duplicateAttribute n => "attribute '" ++ shown n ++ "'" ++ place ++ " is already defined"
  | .duplicateNamespace n => "namespace '" ++ shown n ++ "'" ++ place ++ " is already defined"
  | .unknownNamespace n => "an unknown namespace prefix '" ++ shown n ++ "'" ++ place
  | .reservedPrefix => "the 'xmlns' prefix is used" ++ place ++ ", but it must not be"
  | .xmlPrefixRebound => "'xml' namespace prefix mapped to wrong URI" ++ place
  | .xmlNamespaceBound => "the 'xml' namespace URI is used for not 'xml' prefix" ++ place
  | .xmlnsNamespaceBound => "the 'xmlns' URI is used" ++ place ++ ", but it must not be declared"
  | .mismatchedClose e d => "expected '" ++ shown e ++ "' tag, not '" ++ shown d ++ "'" ++ place

end Graft.Xml
