import Graft.Text.Basic

/-!
# Document trees

What a document says, as far as it is looked at: elements by their local names, and their text.
-/

namespace Graft.Xml

/-- An element or a run of text. -/
inductive Node where
  /-- Characters, from text or from a character data section. -/
  | text (content : Text)
  /-- An element, by its local name. -/
  | element (name : Text) (children : List Node)
  deriving Repr

namespace Node

def children : Node → List Node
  | .text _ => []
  | .element _ children => children

/-- Whether this is an element of that name. -/
def isNamed (name : Text) : Node → Bool
  | .text _ => false
  | .element n _ => n == name

def child? (n : Node) (name : Text) : Option Node := n.children.find? (isNamed name)

/-- The characters of a text. -/
def ownText : Node → Text
  | .text content => content
  | .element _ _ => []

/-- The characters directly inside an element. -/
def innerText (n : Node) : Text := (n.children.map ownText).flatten

end Node

end Graft.Xml
