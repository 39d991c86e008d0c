import Graft.Xml.Reference

/-!
# Namespaces

The prefixes that are declared for an element, and the checks on attributes that hang on them.
Nothing else of namespaces is kept: elements are looked up by their local names.
-/

namespace Graft.Xml

/-- The prefixes that are declared, with their namespaces; of several the first counts. -/
abbrev Scope := List (Text × Text)

/-- The namespace that the prefix `xml` is always bound to. -/
def xmlNamespace : Text := "http://www.w3.org/XML/1998/namespace".toList

def xmlnsNamespace : Text := "http://www.w3.org/2000/xmlns/".toList

def xmlns : Text := "xmlns".toList

/-- The prefix that need not be declared on attributes. -/
def xml : Text := "xml".toList

/-- An attribute that declares no namespace, and the text from it on. -/
structure Attribute where
  name : QName
  /-- The text from the attribute on. -/
  here : Text
  deriving DecidableEq, Repr

/-- What the attributes of a tag amount to so far. -/
structure Attributes where
  /-- The prefixes that the tag declares. -/
  declared : Scope
  others : List Attribute
  deriving DecidableEq, Repr

/-- Adds an attribute, with which `here` begins and whose value is `value`. -/
def Attributes.add (as : Attributes) (name : QName) (value here : Text) :
    Except Stop Attributes :=
  if name.pre = xmlns then
    if value = xmlnsNamespace then .error ⟨.xmlnsNamespaceBound, here⟩
    else if name.name = xml then
      if value = xmlNamespace then .ok as else .error ⟨.xmlPrefixRebound, here⟩
    else if value = xmlNamespace then .error ⟨.xmlNamespaceBound, here⟩
    else if as.declared.any (·.1 == name.name) then .error ⟨.duplicateNamespace name.name, here⟩
    else .ok { as with declared := as.declared ++ [(name.name, value)] }
  else if name.name = xmlns then
    if value = xmlNamespace then .error ⟨.xmlNamespaceBound, here⟩
    else if value = xmlnsNamespace then .error ⟨.xmlnsNamespaceBound, here⟩
    else .ok as
  else .ok { as with others := as.others ++ [⟨name, here⟩] }

/-- The namespace of a prefix that is used at `here`. -/
def Scope.find (scope : Scope) (pre here : Text) : Except Stop Text :=
  match scope.lookup pre with
  | some uri => .ok uri
  | none => .error ⟨.unknownNamespace pre, here⟩

/-- The namespace of an attribute; one without a prefix has none. -/
def Scope.ofAttribute (scope : Scope) (a : Attribute) : Except Stop (Option Text) :=
  if a.name.pre = xml then .ok (some xmlNamespace)
  else if a.name.pre.isEmpty then .ok none
  else (scope.find a.name.pre a.here).map some

/-- Checks that prefixes are declared and no attribute comes twice, `seen` holding those before. -/
def Scope.checkAttributes (scope : Scope) (seen : List (Option Text × Text)) :
    List Attribute → Except Stop Unit
  | [] => .ok ()
  | a :: as => do
    let key := (← scope.ofAttribute a, a.name.name)
    if seen.contains key then .error ⟨.duplicateAttribute a.name.name, a.here⟩
    else scope.checkAttributes (key :: seen) as

/-- Checks that the prefix of an element, whose name begins at `here`, is declared. -/
def Scope.checkElement (scope : Scope) (name : QName) (here : Text) : Except Stop Unit :=
  if name.pre.isEmpty then .ok () else (scope.find name.pre here).map fun _ => ()

end Graft.Xml
