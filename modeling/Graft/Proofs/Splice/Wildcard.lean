import Graft.Proofs.Batch.Setup
import Graft.Proofs.Batch.Patching
import Graft.Proofs.Stepwise.Routes

/-!
# The route that carries the wildcard path

Without the marker comment, routes go in front of the `<Route` that is nearest in front of the first
wildcard path.  That `<Route` need not open an element of this name: it may as well be how
`<Routes>` begins, or an element in an attribute of the route that is meant.

`findAnchor_opensRoute_iff` says that routes are put in front of that place, and that a route
element begins there exactly when a name ends right behind `<Route`.
-/

namespace Graft.Splice.Routes

open Text

/-- The characters that the name of an element ends in front of. -/
def endsName (c : Char) : Bool := isSpace c || c == '/' || c == '>'

/-- Whether the text opens an element that is named `Route`, and not only one whose name begins with
this word. -/
def opensRoute (t : Text) : Bool := (skip? routeOpen t).any fun rest => rest.head?.any endsName

/-- Behind its indentation, an anchor in front of a text that is not indented shows this text. -/
theorem dropWhile_rest_anchorAt {rest : Text} (h : rest.head?.any isIndent = false)
    (default : Text) (kind : AnchorKind) (before : Text) :
    (anchorAt default kind before rest).rest.dropWhile isIndent = rest := by
  have hrest : rest.dropWhile isIndent = rest := by
    cases rest with
    | nil => rfl
    | cons c rest => exact List.dropWhile_cons_of_neg (by simpa using h)
  by_cases hlead : (lastLine before).all isIndent
  · rw [anchorAt_of_indented hlead, Anchor.rest, Anchor.point, List.nil_append,
      List.dropWhile_append_of_pos (List.all_eq_true.1 hlead), hrest]
  · rw [anchorAt_of_not_indented hlead, Anchor.rest, Anchor.point, List.nil_append, hrest]

theorem opensRoute_append (rest : Text) :
    opensRoute (routeOpen ++ rest) = rest.head?.any endsName := by
  rw [opensRoute, skip?_eq_some_iff.2 rfl, Option.any_some]

/-- Without the marker comment, routes are put in front of the `<Route` that is nearest in front of
the first wildcard path.  It begins a route element exactly when a name ends right behind it; where
none does, routes go in front of another element, or into an attribute. -/
theorem findAnchor_opensRoute_iff {s : AnchorSettings} {st : Strategy} {t : Text} {a : Anchor}
    (hs : strategy s = .ok st) (ha : st.findAnchor t = some a) (hk : a.kind = .wildcardRoute) :
    contains s.fallbackMarker t = false ∧
      routeOpen <+: a.rest.dropWhile isIndent ∧
      (opensRoute (a.rest.dropWhile isIndent) ↔
        ∃ before inner back, Nearest t before inner back ∧ inner.head?.any endsName) ∧
      ∀ before inner back, Nearest t before inner back →
        a.rest.dropWhile isIndent = routeOpen ++ inner ++ wildcardPath ++ back ∧
          ∀ snippets, snippets ≠ [] →
            (st.apply t snippets).text = grown s.routeIndent before snippets ++
              (routeOpen ++ inner ++ wildcardPath ++ back) := by
  obtain ⟨-, rfl⟩ := strategy_eq_ok hs
  obtain ⟨kind, before, word, rest, hf, rfl⟩ := findAnchor_eq_some_iff.1 ha
  rw [kind_anchorAt] at hk
  subst hk
  cases hf with
  | @route _ inner back hmarker hn =>
    rw [dropWhile_rest_anchorAt (show (routeOpen ++ (inner ++ wildcardPath ++ back)).head?.any
      isIndent = false from rfl), opensRoute_append]
    have hname : (inner ++ wildcardPath ++ back).head?.any endsName = inner.head?.any endsName := by
      cases inner with
      | nil => exact (by decide +kernel : endsName 'p' = false)
      | cons c inner => rfl
    refine ⟨hmarker, List.prefix_append _ _, ?_, ?_⟩
    · rw [hname]
      refine ⟨fun h => ⟨before, inner, back, hn, h⟩, ?_⟩
      rintro ⟨before', inner', back', hn', h⟩
      obtain ⟨-, rfl, -⟩ := hn.unique hn'
      exact h
    · intro before' inner' back' hn'
      obtain ⟨rfl, rfl, rfl⟩ := hn.unique hn'
      refine ⟨by simp only [List.append_assoc], fun snippets hne => ?_⟩
      rw [Strategy.apply_text hne ha]
      simpa only [List.append_assoc] using splice_anchorAt s.routeIndent .wildcardRoute before
        (routeOpen ++ inner ++ wildcardPath ++ back) snippets

/-- The route with the wildcard path on a line of its own, behind a route with an element. -/
theorem findAnchor_opensRoute_iff_line :
    let t := ("<Routes>\n  <Route path=\"/\" element=\x7b<Home />\x7d />\n" ++
      "\t<Route path=\"*\" />\n</Routes>\n").toList
    ∃ st a, strategy {} = .ok st ∧ st.findAnchor t = some a ∧ a.kind = .wildcardRoute ∧
      opensRoute (a.rest.dropWhile isIndent) := by
  intro t
  have hn : Nearest t "<Routes>\n  <Route path=\"/\" element=\x7b<Home />\x7d />\n\t".toList [' ']
      " />\n</Routes>\n".toList := by
    constructor <;> decide +kernel
  have h : ∀ st a, strategy {} = .ok st → st.findAnchor t = some a → a.kind = .wildcardRoute →
      opensRoute (a.rest.dropWhile isIndent) := fun st a hs ha hk =>
    (findAnchor_opensRoute_iff hs ha hk).2.2.1.2 ⟨_, _, _, hn, by decide +kernel⟩
  exact ⟨_, _, rfl, rfl, rfl, h _ _ rfl rfl rfl⟩

/-- An element in an attribute of the route is nearer to the wildcard path, and a route goes in
front of it, into the attribute. -/
theorem findAnchor_attribute :
    let t := "<Routes>\n  <Route element=\x7b<RouteGuard />\x7d path=\"*\" />\n</Routes>\n".toList
    ∃ st a, strategy {} = .ok st ∧ st.findAnchor t = some a ∧ a.kind = .wildcardRoute ∧
      contains ({} : AnchorSettings).fallbackMarker t = false ∧
      a.rest.dropWhile isIndent = "<RouteGuard />\x7d path=\"*\" />\n</Routes>\n".toList ∧
      opensRoute (a.rest.dropWhile isIndent) = false := by
  refine ⟨_, _, rfl, rfl, rfl, ?_, ?_, ?_⟩ <;> decide +kernel

end Graft.Splice.Routes
