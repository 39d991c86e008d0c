import Graft.Text.Word

/-!
# Module documents

What a generator says about one module: its name and slug, a plan, the files it consists of, and the
snippets that make an application use it.
-/

namespace Graft

/-- The snippets that a document carries, by the elements that hold them. -/
inductive SnippetField where
  | importLine
  | route
  | homeCard
  deriving DecidableEq, Repr

namespace SnippetField

/-- All fields, in the order of the document. -/
def all : List SnippetField := [.importLine, .route, .homeCard]

/-- The name of the element that holds the snippet. -/
def key : SnippetField → String
  | .importLine => "import"
  | .route => "route"
  | .homeCard => "home_card"

end SnippetField

/-- A file of a module. -/
structure ModuleFile where
  path : Text
  content : Text
  deriving DecidableEq, Repr

/-- The snippets of a document, each of which may be absent. -/
structure Snippets where
  importLine : Option Text := none
  route : Option Text := none
  homeCard : Option Text := none
  deriving DecidableEq, Repr

namespace Snippets

def get (s : Snippets) : SnippetField → Option Text
  | .importLine => s.importLine
  | .route => s.route
  | .homeCard => s.homeCard

/-- The snippets that are there, with their fields. -/
def toList (s : Snippets) : List (SnippetField × Text) :=
  SnippetField.all.filterMap fun f => (s.get f).map fun t => (f, t)

def isEmpty (s : Snippets) : Bool := s.toList.isEmpty

end Snippets

/-- A module document. -/
structure Document where
  moduleName : Text
  slug : Text
  /-- The plan, if there is one. -/
  plan : Option Text
  files : List ModuleFile
  snippets : Snippets
  deriving DecidableEq, Repr

/-- The characters of a canonical slug. -/
def isSlugChar (c : Char) : Bool := ('a' ≤ c && c ≤ 'z') || Text.isDigit c || c == '-'

/-- Whether the slug consists of small letters, digits and hyphens. -/
def Document.hasCanonicalSlug (d : Document) : Bool := !d.slug.isEmpty && d.slug.all isSlugChar

end Graft
