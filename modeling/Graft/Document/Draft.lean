import Graft.Document.Basic

/-!
# Drafting a document

A draft is a module document before it is written.  A conventional one is made from the module's
name and slug alone; `Draft.render` writes it as XML, with the plan, contents and snippets in
character data sections.
-/

namespace Graft

open Text

/-- The letter as a capital, if it is a small ASCII letter. -/
def capital (c : Char) : Char := if 'a' ≤ c ∧ c ≤ 'z' then Char.ofNat (c.toNat - 32) else c

/-- The words of a text, which are its runs of ASCII letters and digits, run together.  `fresh` says
that a word may begin here; the first letter of a word becomes a capital. -/
def pascalCaseFrom : Bool → Text → Text
  | _, [] => []
  | fresh, c :: t =>
    if isLetter c || isDigit c then (if fresh then capital c else c) :: pascalCaseFrom false t
    else pascalCaseFrom true t

/-- The words of a text run together, each with a capital. -/
def pascalCase (t : Text) : Text := pascalCaseFrom true t

/-- A module document before it is written. -/
structure Draft where
  moduleName : Text
  slug : Text
  plan : Option Text := none
  files : List ModuleFile := []
  snippets : Snippets
  integration : Bool := true
  deriving DecidableEq, Repr

namespace Draft

/-- The import of a component from a module. -/
def importOf (component slug : Text) : Text :=
  "import ".toList ++ component ++ " from \"@modules/".toList ++ slug ++ "\";".toList

def routeOf (component slug : Text) : Text :=
  "<Route path=\"/".toList ++ slug ++ "\" element=\x7b<".toList ++ component ++ " />\x7d />".toList

def entryOf (moduleName slug icon : Text) : Text :=
  "\x7b\n  path: \"/".toList ++ slug ++ "\",\n  title: \"".toList ++ moduleName ++
    "\",\n  icon: ".toList ++ icon ++ ",\n\x7d".toList

/-- The draft of a module with the conventional snippets. -/
def conventional (moduleName slug : Text) : Draft where
  moduleName := moduleName
  slug := slug
  snippets :=
    { importLine := some (importOf (pascalCase moduleName) slug)
      route := some (routeOf (pascalCase moduleName) slug)
      homeCard := some (entryOf moduleName slug "Star".toList) }

/-- The draft with the conventional entry for another icon. -/
def withIcon (d : Draft) (icon : Text) : Draft :=
  { d with snippets := { d.snippets with homeCard := some (entryOf d.moduleName d.slug icon) } }

/-- A text in a character data section inside an element. -/
def sectionIn (name : String) (t : Text) : Text :=
  "<".toList ++ name.toList ++ "><![CDATA[".toList ++ t ++ "]]></".toList ++ name.toList ++
    ">".toList

def renderFile (f : ModuleFile) : Text :=
  "    <file>\n      <path>".toList ++ f.path ++ "</path>\n      ".toList ++
    sectionIn "content" f.content ++ "\n    </file>\n".toList

/-- The element of the files, if there are any. -/
def renderFiles (files : List ModuleFile) : Text :=
  if files.isEmpty then []
  else "  <files>\n".toList ++ (files.map renderFile).flatten ++ "  </files>\n".toList

/-- The element of a plan, if there is one. -/
def renderPlan : Option Text → Text
  | none => []
  | some plan => "  ".toList ++ sectionIn "plan" plan ++ "\n".toList

def renderSnippet (s : SnippetField × Text) : Text :=
  "    ".toList ++ sectionIn s.1.key s.2 ++ "\n".toList

def renderSnippets (s : Snippets) : Text :=
  "  <integration>\n".toList ++ (s.toList.map renderSnippet).flatten ++
    "  </integration>\n".toList

def render (d : Draft) : Text :=
  "<?xml version=\"1.0\" encoding=\"UTF-8\"?>\n<module>\n".toList ++
    "  <module_name>".toList ++ d.moduleName ++ "</module_name>\n".toList ++
    "  <slug>".toList ++ d.slug ++ "</slug>\n".toList ++
    renderPlan d.plan ++ renderFiles d.files ++
    (if d.integration then renderSnippets d.snippets else []) ++
    "</module>\n".toList

end Draft

end Graft
