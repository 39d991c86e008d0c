import Graft.Text.Indent
import Graft.Text.Search
import Graft.Splice.Anchor
import Graft.Splice.Settings

/-!
# Routes

Routes go in front of the catch-all route: in front of its marker comment, and failing that in front
of the route element that carries the wildcard path.
-/

namespace Graft.Splice.Routes

open Text

/-- The attribute of the catch-all route. -/
def wildcardPath : Text := "path=\"*\"".toList

def routeOpen : Text := "<Route".toList

/-- The anchor in front of `rest`: at the start of its line, with the indentation found there, when
nothing else stands before `rest` on that line, and else right in front of `rest`. -/
def anchorAt (default : Text) (kind : AnchorKind) (before rest : Text) : Anchor :=
  let lead := lastLine before
  if lead.all isIndent then
    .point kind (beforeLastLine before) (lead ++ rest) (if lead.isEmpty then default else lead)
  else .point kind before rest default

def findAnchor (s : AnchorSettings) (t : Text) : Option Anchor :=
  match cut? s.fallbackMarker t with
  | some (before, after) =>
    some (anchorAt s.routeIndent .fallbackMarker before (s.fallbackMarker ++ after))
  | none => do
    let (front, back) ← cut? wildcardPath t
    let (before, inner) ← lastCut? routeOpen front
    some (anchorAt s.routeIndent .wildcardRoute before (routeOpen ++ inner ++ wildcardPath ++ back))

/-- The routes, each under the indentation and followed by an empty line. -/
def block (indent : Text) (snippets : List Text) : Text :=
  (snippets.map fun s => indentBlock s indent ++ "\n\n".toList).flatten

/-- Splices routes at an anchor.  In the middle of a line, a new line is begun before the routes and
after them. -/
def splice (a : Anchor) (snippets : List Text) : Spliced :=
  let routes := block a.indent snippets
  if (lastLine a.before).isEmpty then ⟨a.insert routes, snippets.length⟩
  else ⟨a.insert ('\n' :: routes ++ a.indent), snippets.length⟩

/-- The strategy for routes, which needs a marker to look for. -/
def strategy (s : AnchorSettings) : Except SetupError Strategy :=
  if s.fallbackMarker.isEmpty then .error (.emptySetting .fallbackMarker)
  else .ok ⟨.route, "routes", findAnchor s, splice⟩

end Graft.Splice.Routes
