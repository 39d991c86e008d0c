/-!
# Targets and kinds of snippets

A module is grafted into two texts: the router, which imports components and routes to them, and the
listing, which imports icons and lists entries.  Each kind of snippet goes into one of them.
-/

namespace Graft.Splice

/-- The two texts that snippets are spliced into. -/
inductive TargetRole where
  | router
  | listing
  deriving DecidableEq, Repr

def TargetRole.key : TargetRole → String
  | .router => "router"
  | .listing => "listing"

/-- The kinds of snippets. -/
inductive SnippetKind where
  /-- Import lines of components, in the router. -/
  | importLine
  | route
  /-- Icon identifiers, in the listing's import of icons. -/
  | icon
  /-- Entry objects, in the listing's array. -/
  | listEntry
  deriving DecidableEq, Repr

namespace SnippetKind

/-- All kinds, in the order in which they are patched. -/
def all : List SnippetKind := [.importLine, .route, .icon, .listEntry]

def key : SnippetKind → String
  | .importLine => "import"
  | .route => "route"
  | .icon => "icon"
  | .listEntry => "list_entry"

def target : SnippetKind → TargetRole
  | .importLine | .route => .router
  | .icon | .listEntry => .listing

theorem mem_all (k : SnippetKind) : k ∈ all := by
  cases k <;> decide

end SnippetKind

/-- The shapes that anchors are found by. -/
inductive AnchorKind where
  /-- The last import line of a module. -/
  | moduleImport
  /-- The comment after which imports go. -/
  | importsMarker
  /-- The end of the router library's import. -/
  | routerImport
  /-- The comment before the catch-all route. -/
  | fallbackMarker
  /-- The route element with the wildcard path. -/
  | wildcardRoute
  /-- The list of names that the icon library's import binds. -/
  | iconImport
  /-- The body of the typed array. -/
  | listDeclaration
  deriving DecidableEq, Repr

namespace AnchorKind

def all : List AnchorKind :=
  [.moduleImport, .importsMarker, .routerImport, .fallbackMarker, .wildcardRoute, .iconImport,
    .listDeclaration]

def key : AnchorKind → String
  | .moduleImport => "module_import"
  | .importsMarker => "imports_marker"
  | .routerImport => "router_import"
  | .fallbackMarker => "fallback_marker"
  | .wildcardRoute => "wildcard_route"
  | .iconImport => "icon_import"
  | .listDeclaration => "list_declaration"

end AnchorKind

end Graft.Splice
