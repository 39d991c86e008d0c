import Graft.Document.Basic
import Graft.Xml.Reader

/-!
# Reading a module document

`Document.parse` reads the XML of a document.  Text that is blank counts as absent, and a file
without a path or without a content element is left out.
-/

namespace Graft

open Text

/-- The fields that a document must have. -/
inductive RequiredField where
  | moduleName
  | slug
  deriving DecidableEq, Repr

/-- The name of the element that holds the field. -/
def RequiredField.key : RequiredField → String
  | .moduleName => "module_name"
  | .slug => "slug"

/-- Why a text is not a module document. -/
inductive ReadError where
  | xml (fault : Xml.Fault)
  /-- A field is absent or blank. -/
  | missingField (field : RequiredField)
  | empty
  deriving DecidableEq, Repr

namespace ReadError

def message : ReadError → String
  | .xml f => "xml parsing error at " ++ f.position.message ++ ": " ++ f.message
  | .missingField f => "missing required field: " ++ f.key
  | .empty => "empty document"

/-- Whether the text is no document at all. -/
def isMalformed : ReadError → Bool
  | .xml _ | .empty => true
  | .missingField _ => false

end ReadError

namespace Document

open Xml (Node)

/-- A text, trimmed, unless it is blank. -/
def nonblank? (t : Text) : Option Text := if isBlank t then none else some (trim t)

/-- The text of the first child element of that name, unless it is blank. -/
def childText? (n : Node) (name : String) : Option Text := do
  let child ← n.child? name.toList
  nonblank? child.innerText

def file? (n : Node) : Option ModuleFile := do
  let path ← childText? n "path"
  let content ← n.child? "content".toList
  some ⟨path, trim content.innerText⟩

def filesOf (n : Node) : List ModuleFile :=
  (n.children.filter (Node.isNamed "file".toList)).filterMap file?

def snippetsOf (n : Node) : Snippets where
  importLine := childText? n SnippetField.importLine.key
  route := childText? n SnippetField.route.key
  homeCard := childText? n SnippetField.homeCard.key

def ofNode (root : Node) : Except ReadError Document := do
  let moduleName ← ((childText? root RequiredField.moduleName.key).elim
    (.error (.missingField .moduleName)) .ok)
  let slug ← ((childText? root RequiredField.slug.key).elim (.error (.missingField .slug)) .ok)
  .ok {
    moduleName
    slug
    plan := childText? root "plan"
    files := ((root.child? "files".toList).map filesOf).getD []
    snippets := ((root.child? "integration".toList).map snippetsOf).getD {} }

def parse (t : Text) : Except ReadError Document :=
  if isBlank t then .error .empty
  else
    match Xml.parse t with
    | .error f => .error (.xml f)
    | .ok root => ofNode root

end Document

end Graft
