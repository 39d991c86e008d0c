import Graft.Text.Basic
import Graft.Splice.Kind

/-!
# Anchor settings

The words that the shapes of anchors are built from, with defaults for a router that lists its
routes in one file and a home page with a typed `modules` array.  A setting that an anchor hangs on
must not be empty; `SetupError` names the one that is.
-/

namespace Graft.Splice

/-- The settings, by name. -/
inductive Setting where
  | moduleImportPrefix
  | importsMarker
  | routerLibrary
  | fallbackMarker
  | routeIndent
  | iconLibrary
  | listName
  | listType
  | listIndent
  deriving DecidableEq, Repr

namespace Setting

/-- All settings, in the order in which they are declared. -/
def all : List Setting :=
  [.moduleImportPrefix, .importsMarker, .routerLibrary, .fallbackMarker, .routeIndent,
    .iconLibrary, .listName, .listType, .listIndent]

/-- The key a setting has in a configuration. -/
def key : Setting → String
  | .moduleImportPrefix => "module_import_prefix"
  | .importsMarker => "imports_marker"
  | .routerLibrary => "router_library"
  | .fallbackMarker => "fallback_marker"
  | .routeIndent => "route_indent"
  | .iconLibrary => "icon_library"
  | .listName => "list_name"
  | .listType => "list_type"
  | .listIndent => "list_indent"

end Setting

/-- The settings of the four strategies. -/
structure AnchorSettings where
  /-- How the source of a module's import begins. -/
  moduleImportPrefix : Text := "@modules/".toList
  /-- The comment after which imports go when no module is imported yet. -/
  importsMarker : Text := "// Import modules".toList
  /-- The library whose import is the last resort for imports. -/
  routerLibrary : Text := "react-router-dom".toList
  /-- The comment before the catch-all route. -/
  fallbackMarker : Text := "\x7b/* 404 Fallback */\x7d".toList
  /-- The indentation of routes where the anchor's line has none. -/
  routeIndent : Text := "        ".toList
  /-- The library that icons are imported from. -/
  iconLibrary : Text := "lucide-react".toList
  listName : Text := "modules".toList
  listType : Text := "Module".toList
  listIndent : Text := "  ".toList
  deriving DecidableEq, Repr

namespace AnchorSettings

def get (s : AnchorSettings) : Setting → Text
  | .moduleImportPrefix => s.moduleImportPrefix
  | .importsMarker => s.importsMarker
  | .routerLibrary => s.routerLibrary
  | .fallbackMarker => s.fallbackMarker
  | .routeIndent => s.routeIndent
  | .iconLibrary => s.iconLibrary
  | .listName => s.listName
  | .listType => s.listType
  | .listIndent => s.listIndent

def set (s : AnchorSettings) (v : Text) : Setting → AnchorSettings
  | .moduleImportPrefix => { s with moduleImportPrefix := v }
  | .importsMarker => { s with importsMarker := v }
  | .routerLibrary => { s with routerLibrary := v }
  | .fallbackMarker => { s with fallbackMarker := v }
  | .routeIndent => { s with routeIndent := v }
  | .iconLibrary => { s with iconLibrary := v }
  | .listName => { s with listName := v }
  | .listType => { s with listType := v }
  | .listIndent => { s with listIndent := v }

theorem get_set (s : AnchorSettings) (v : Text) (a b : Setting) :
    (s.set v a).get b = if b = a then v else s.get b := by
  cases a <;> cases b <;> rfl

/-- Settings that agree by name are the same. -/
theorem ext_get {s t : AnchorSettings} (h : ∀ a, s.get a = t.get a) : s = t := by
  cases s
  cases t
  rw [mk.injEq]
  exact ⟨h .moduleImportPrefix, h .importsMarker, h .routerLibrary, h .fallbackMarker,
    h .routeIndent, h .iconLibrary, h .listName, h .listType, h .listIndent⟩

end AnchorSettings

/-- Why strategies cannot be set up or applied. -/
inductive SetupError where
  /-- A setting that an anchor hangs on is empty. -/
  | emptySetting (setting : Setting)
  /-- Nothing is registered for a kind. -/
  | noStrategy (kind : SnippetKind)
  deriving DecidableEq, Repr

def SetupError.message : SetupError → String
  | .emptySetting s => "empty anchor setting: " ++ s.key
  | .noStrategy k => "no strategy registered for " ++ k.key

end Graft.Splice
