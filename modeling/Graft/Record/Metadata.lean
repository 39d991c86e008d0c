import Graft.Text.Pattern

/-!
# Metadata of snippets

The names and paths that snippets carry.  Each is looked for by its shape, and the leftmost place
with that shape counts; nothing else of a snippet is understood.
-/

namespace Graft.Metadata

open Text

/-- The component that an import binds, if the text begins with one. -/
def componentAt? (before : Option Char) (t : Text) : Option Text := do
  let t ← if beforeWord before then skip? "import".toList t else none
  let t ← skipSpaces? t
  let (name, t) ← ident? t
  let t ← skipApart? "from".toList t
  if afterWord t then some name else none

/-- The value of a path attribute, if the text begins with one. -/
def routePathAt? (before : Option Char) (t : Text) : Option Text := do
  let t ← if beforeWord before then skip? "path=\"".toList t else none
  let value := t.takeWhile (· != '"')
  let _ ← skip? "\"".toList (t.dropWhile (· != '"'))
  if value.isEmpty then none else some value

/-- The value of a path key, if the text begins with one. -/
def entryPathAt? (before : Option Char) (t : Text) : Option Text := do
  let t ← if beforeWord before then skip? "path:".toList t else none
  let t ← skipQuote? (trimStart t)
  let value := unquoted t
  let _ ← skipQuote? (fromQuote t)
  if value.isEmpty then none else some value

/-- The identifier at an icon key, if the text begins with one. -/
def iconAt? (before : Option Char) (t : Text) : Option Text := do
  let t ← if beforeWord before then skip? "icon:".toList t else none
  let (name, _) ← ident? (trimStart t)
  some name

/-- What a matcher answers at the leftmost place at which it succeeds. -/
def first? (m : Option Char → Text → Option Text) (t : Text) : Option Text :=
  (leftmost m none t).map fun (_, value) => value

def component? (t : Text) : Option Text := first? componentAt? t

def routePath? (t : Text) : Option Text := first? routePathAt? t

def entryPath? (t : Text) : Option Text := first? entryPathAt? t

def icon? (t : Text) : Option Text := first? iconAt? t

/-- A path as routes show it. -/
def routeAttribute (path : Text) : Text := "path=\"".toList ++ path ++ "\"".toList

/-- A path as listing entries show it, with either quote. -/
def entryKeys (path : Text) : List Text :=
  ["path: \"".toList ++ path ++ "\"".toList, "path: '".toList ++ path ++ "'".toList]

end Graft.Metadata
