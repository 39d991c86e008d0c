import Graft.Proofs.Splice.Routes
import Graft.Proofs.Text.Block
import Graft.Proofs.Text.Piece

/-!
# Routes in several steps

Routes that show no anchor are put in front of one, and more of them right behind those.

* `splice_anchorAt`: routes change what stands in front of the anchor's word;
* `grown_grown`: what two steps make of it, one step makes of it;
* `exists_clear`: what is put in neither makes nor hides a word that the anchor hangs on;
* `FoundBy.grown`: the word is found again, behind the routes;
* `exists_resumed`: so that more routes go there.
-/

namespace Graft.Splice.Routes

open Text

/-! ## What stands in front of the anchor's word -/

/-- The indentation of routes in front of a word that some text stands in front of. -/
def indentAt (default before : Text) : Text :=
  if (lastLine before).isEmpty then default else lastLine before

/-- The text in front of a word, with routes put in. -/
def grown (default before : Text) (routes : List Text) : Text :=
  if (lastLine before).all isIndent then
    beforeLastLine before ++ block (indentAt default before) routes ++ lastLine before
  else before ++ '\n' :: block default routes ++ default

theorem inserted_of_lineStart {a : Anchor} (h : (lastLine a.before).isEmpty) (routes : List Text) :
    inserted a routes = block a.indent routes := if_pos h

theorem inserted_of_midLine {a : Anchor} (h : ¬ (lastLine a.before).isEmpty)
    (routes : List Text) : inserted a routes = '\n' :: block a.indent routes ++ a.indent := if_neg h

theorem splice_anchorAt (default : Text) (kind : AnchorKind) (before rest : Text)
    (routes : List Text) :
    (splice (anchorAt default kind before rest) routes).text =
      grown default before routes ++ rest := by
  rw [splice_text, grown]
  by_cases h : (lastLine before).all isIndent
  · have hline : (lastLine (beforeLastLine before)).isEmpty := by
      rw [lastLine_beforeLastLine]
      rfl
    rw [anchorAt_of_indented h, if_pos h, inserted_of_lineStart hline]
    simp only [Anchor.point, Anchor.rest, indentAt, List.nil_append, List.append_assoc]
  · have hline : ¬ (lastLine before).isEmpty := by
      intro he
      rw [List.isEmpty_iff.1 he] at h
      exact h rfl
    rw [anchorAt_of_not_indented h, if_neg h, inserted_of_midLine hline]
    simp only [Anchor.point, Anchor.rest, List.nil_append, List.append_assoc]

theorem lastLine_block (indent : Text) (routes : List Text) :
    lastLine (block indent routes) = [] := by
  induction routes with
  | nil => rfl
  | cons s routes ih =>
    have hb : block indent (s :: routes) =
        indentBlock s indent ++ ['\n'] ++ ['\n'] ++ block indent routes := by
      have hn : "\n\n".toList = ['\n', '\n'] := rfl
      simp [block, hn]
    rw [hb, lastLine_append (lastLine_eq_nil_iff.2 (.inr ⟨_, rfl⟩)), ih]

theorem block_append (indent : Text) (xs ys : List Text) :
    block indent (xs ++ ys) = block indent xs ++ block indent ys := by
  simp only [block, List.map_append, List.flatten_append]

theorem oneLine_of_indented {l : Text} (h : l.all isIndent) : '\n' ∉ l := fun hm =>
  absurd (List.all_eq_true.1 h _ hm) (by decide)

/-- Routes that are put in behind others are put in as if they had come with them. -/
theorem grown_grown {default : Text} (hd : default.all isIndent) (before : Text)
    (xs ys : List Text) :
    grown default (grown default before xs) ys = grown default before (xs ++ ys) := by
  by_cases h : (lastLine before).all isIndent
  · have hstart : lastLine (beforeLastLine before ++ block (indentAt default before) xs) = [] := by
      rw [lastLine_append (lastLine_beforeLastLine before), lastLine_block]
    have hlast := lastLine_of_oneLine (oneLine_of_indented h)
    have hfront := beforeLastLine_of_oneLine (oneLine_of_indented h)
    have hgrown : ∀ routes, grown default before routes =
        beforeLastLine before ++ block (indentAt default before) routes ++ lastLine before :=
      fun _ => if_pos h
    have hline : lastLine (grown default before xs) = lastLine before := by
      rw [hgrown, lastLine_append hstart, hlast]
    have hrest : beforeLastLine (grown default before xs) =
        beforeLastLine before ++ block (indentAt default before) xs := by
      rw [hgrown, beforeLastLine_append hstart, hfront, List.append_nil]
    rw [grown, indentAt, hline, hrest, if_pos h, hgrown, block_append]
    simp only [indentAt, List.append_assoc]
  · have hstart : lastLine (before ++ '\n' :: block default xs) = [] := by
      rw [← List.singleton_append, ← List.append_assoc,
        lastLine_append (lastLine_eq_nil_iff.2 (.inr ⟨before, rfl⟩)), lastLine_block]
    have hlast := lastLine_of_oneLine (oneLine_of_indented hd)
    have hfront := beforeLastLine_of_oneLine (oneLine_of_indented hd)
    have hgrown : ∀ routes, grown default before routes =
        before ++ '\n' :: block default routes ++ default := fun _ => if_neg h
    have hline : lastLine (grown default before xs) = default := by
      rw [hgrown, lastLine_append hstart, hlast]
    have hrest : beforeLastLine (grown default before xs) = before ++ '\n' :: block default xs := by
      rw [hgrown, beforeLastLine_append hstart, hfront, List.append_nil]
    rw [grown, indentAt, hline, hrest, if_pos hd, ite_self, hgrown, block_append]
    simp only [List.append_assoc, List.cons_append]

/-! ## What is put in -/

/-- The words that anchors hang on are solid and are cut by none of them, and routes are indented by
spaces and tabs. -/
structure Steady (s : AnchorSettings) : Prop where
  marker : Solid s.fallbackMarker
  markerUncut : Uncut s s.fallbackMarker
  wildcardUncut : Uncut s wildcardPath
  indent : s.routeIndent.all isIndent

theorem steady_default : Steady {} where
  marker :=
    ⟨firm_of_head? rfl,
      ⟨({} : AnchorSettings).fallbackMarker.dropLast, '\x7d', by decide, rfl⟩,
      by decide⟩
  markerUncut := uncut_of_head (by decide) (forall_mem_of_all rfl)
  wildcardUncut := uncut_of_head (by decide) (forall_mem_of_all rfl)
  indent := by decide

theorem solid_wildcardPath : Solid wildcardPath :=
  ⟨firm_of_head? rfl, ⟨wildcardPath.dropLast, '"', by decide, rfl⟩,
    by decide⟩

theorem contains_nil {w : Text} (hw : w ≠ []) : contains w [] = false := by
  obtain ⟨c, u, rfl⟩ := List.exists_cons_of_ne_nil hw
  rfl

/-- Routes under an indentation show no word that none of them shows. -/
theorem contains_block {w indent : Text} (hw : Solid w) (hi : isBlank indent) {routes : List Text}
    (hr : ∀ r ∈ routes, contains w r = false) : contains w (block indent routes) = false := by
  induction routes with
  | nil => exact contains_nil hw.ne_nil
  | cons r routes ih =>
    obtain ⟨hr, hrs⟩ := List.forall_mem_cons.1 hr
    have hn : "\n\n".toList = ['\n', '\n'] := rfl
    have hb : block indent (r :: routes) =
        indentBlock r indent ++ ['\n'] ++ ([] ++ ['\n'] ++ block indent routes) := by
      simp [block, hn]
    rw [← Bool.not_eq_true, hb, contains_separated_iff hw.oneLine hw.ne_nil,
      contains_separated_iff hw.oneLine hw.ne_nil, ih hrs, contains_nil hw.ne_nil]
    simp only [Bool.false_eq_true, or_false]
    intro hc
    rw [contains_of_contains_indentBlock hw.first hw.oneLine hi hc] at hr
    cases hr

section
variable {s : AnchorSettings} (hs : Steady s) {routes : List Text} {before rest o : Text}
  (ho : o = s.fallbackMarker ∨ o = routeOpen) (hrest : o <+: rest)

include ho hrest in
theorem Uncut.not_straddles {w : Text} (h : Uncut s w) (x : Text) : ¬ Straddles w x rest := by
  rintro ⟨u, v, hu, hv, hw, _, hb⟩
  obtain ⟨hvo, hov⟩ := h o ho u v hu hv hw
  exact (List.prefix_or_prefix_of_prefix hb hrest).elim hvo hov

include hs ho hrest in
/-- What is put in neither makes nor hides a word that the anchor hangs on. -/
theorem exists_clear (before : Text) (routes : List Text) :
    ∃ p c z, before = p ++ z ∧ grown s.routeIndent before routes = p ++ c ++ z ∧
      ∀ w, Solid w → Uncut s w → (∀ r ∈ routes, contains w r = false) →
        Clear w p c (z ++ rest) := by
  by_cases h : (lastLine before).all isIndent
  · have hstart : lastLine (beforeLastLine before ++
        block (indentAt s.routeIndent before) routes) = [] := by
      rw [lastLine_append (lastLine_beforeLastLine before), lastLine_block]
    have hblank : isBlank (indentAt s.routeIndent before) := by
      unfold indentAt
      split
      · exact isBlank_of_all_isIndent hs.indent
      · exact isBlank_of_all_isIndent h
    refine ⟨_, _, _, (beforeLastLine_append_lastLine before).symm, if_pos h, fun w hw _ hr => ?_⟩
    exact clear_of_lines hw.oneLine (contains_block hw hblank hr)
      (.inl (lastLine_beforeLastLine before)) hstart
  · refine ⟨before, '\n' :: block s.routeIndent routes ++ s.routeIndent, [],
      (List.append_nil before).symm, ?_, fun w hw hcut hr => ⟨?_, ?_, ?_, ?_⟩⟩
    · rw [grown, if_neg h, List.append_nil, List.append_assoc]
    · exact hcut.not_straddles ho hrest before
    · exact not_straddles_of_notMem_right hw.oneLine
    · exact hcut.not_straddles ho hrest _
    · refine Bool.eq_false_iff.2 fun hc => ?_
      have hblank := isBlank_of_all_isIndent hs.indent
      have hin := infix_of_append_blank hw.last hblank (contains_iff_isInfix.1 hc)
      have hcut : contains w ([] ++ ['\n'] ++ block s.routeIndent routes) :=
        contains_iff_isInfix.2 hin
      rw [contains_separated_iff hw.oneLine hw.ne_nil, contains_nil hw.ne_nil,
        contains_block hw hblank hr] at hcut
      exact hcut.elim Bool.false_ne_true Bool.false_ne_true

end

/-! ## The anchor's word behind them -/

/-- What is clear of a word moves its first occurrence. -/
theorem cut?_moved {w p c z b back : Text} (hw : w ≠ []) (hc : Clear w p c b)
    (h : cut? w (p ++ b) = some (p ++ z, back)) : cut? w (p ++ c ++ b) = some (p ++ c ++ z, back) := by
  have hnone : contains w p = false := by
    refine Bool.eq_false_iff.2 fun hin => ?_
    have hfront := contains_of_cut? hw h
    rw [contains_append_left hin z] at hfront
    cases hfront
  obtain ⟨hpb, hpcb⟩ := hc.cut?_right (contains_eq_false_iff.1 hnone)
  rw [h] at hpb
  obtain ⟨⟨z', back'⟩, hb, hp⟩ := Option.map_eq_some_iff.1 hpb.symm
  obtain ⟨hz, rfl⟩ := Prod.mk.inj hp
  obtain rfl := List.append_cancel_left hz
  rw [hpcb, hb, Option.map_some]

/-- What is clear of a word does not bring it in. -/
theorem cut?_moved_none {w p c b : Text} (hc : Clear w p c b) (h : cut? w (p ++ b) = none) :
    cut? w (p ++ c ++ b) = none := by
  have hp : cut? w p = none := by
    rw [← contains_eq_false_iff] at h ⊢
    refine Bool.eq_false_iff.2 fun hin => ?_
    rw [contains_append_left hin b] at h
    cases h
  obtain ⟨hpb, hpcb⟩ := hc.cut?_right hp
  rw [h] at hpb
  rw [hpcb, Option.map_eq_none_iff.1 hpb.symm, Option.map_none]

theorem lastCut?_of_append {w p t front rest : Text}
    (h : lastCut? w (p ++ t) = some (p ++ front, rest)) : lastCut? w t = some (front, rest) := by
  induction p with
  | nil => exact h
  | cons c p ih =>
    rw [List.cons_append, lastCut?_cons] at h
    refine ih ?_
    rcases Option.or_eq_some_iff.1 h with h | ⟨_, h⟩
    · obtain ⟨⟨f, r⟩, hf, hp⟩ := Option.map_eq_some_iff.1 h
      obtain ⟨hcons, hr⟩ := Prod.mk.inj hp
      dsimp only at hcons hr
      rw [hf, (List.cons.inj hcons).2, hr]
      rfl
    · obtain ⟨r, _, hp⟩ := Option.map_eq_some_iff.1 h
      cases (Prod.mk.inj hp).1

section
variable {s : AnchorSettings} (hs : Steady s) {t : Text} {a : Anchor} {xs : List Text}
  (hxs : ∀ x ∈ xs, contains s.fallbackMarker x = false ∧ contains wildcardPath x = false)
include hs hxs

/-- Behind what was put in, the anchor is found again by the same word. -/
theorem FoundBy.grown {kind : AnchorKind} {front word back : Text}
    (h : FoundBy s t kind front word back) :
    FoundBy s (grown s.routeIndent front xs ++ (word ++ back)) kind
      (grown s.routeIndent front xs) word back := by
  cases h with
  | marker first =>
    obtain ⟨p, c, z, rfl, hg, hclear⟩ :=
      exists_clear hs (.inl rfl) (List.prefix_append _ back) front xs
    have hmarker := hclear _ hs.marker hs.markerUncut fun x hx => (hxs x hx).1
    have ht := cut?_eq_append first
    rw [List.append_assoc, List.append_assoc] at ht
    rw [hg, List.append_assoc _ z]
    exact .marker (cut?_moved hs.marker.ne_nil hmarker (ht ▸ first))
  | @route _ inner back unmarked nearest =>
    obtain ⟨p, c, z, rfl, hg, hclear⟩ :=
      exists_clear hs (.inr rfl) (List.prefix_append _ (inner ++ wildcardPath ++ back)) front xs
    have hmarker := hclear _ hs.marker hs.markerUncut fun x hx => (hxs x hx).1
    have hpath := hclear _ solid_wildcardPath hs.wildcardUncut fun x hx => (hxs x hx).2
    obtain ⟨front, hcut, hopen⟩ := nearest_iff.1 nearest
    have hfront : front = p ++ (z ++ (routeOpen ++ inner)) := by
      rw [lastCut?_eq_append hopen]
      simp only [List.append_assoc]
    have ht : t = p ++ (z ++ (routeOpen ++ (inner ++ wildcardPath ++ back))) := by
      rw [cut?_eq_append hcut, hfront]
      simp only [List.append_assoc]
    rw [ht, contains_eq_false_iff] at unmarked
    rw [ht, hfront] at hcut
    rw [hfront] at hopen
    rw [hg, List.append_assoc _ z]
    refine .route (contains_eq_false_iff.2 (cut?_moved_none hmarker unmarked)) ?_
    exact nearest_iff.2 ⟨_, cut?_moved wildcardPath_ne_nil hpath hcut,
      lastCut?_append_of_some (lastCut?_of_append hopen) (p ++ c)⟩

/-- More routes are put in behind those that were, as if they had come with them. -/
theorem exists_resumed (h : findAnchor s t = some a) :
    ∃ a', findAnchor s (splice a xs).text = some a' ∧
      ∀ ys, (splice a' ys).text = (splice a (xs ++ ys)).text := by
  obtain ⟨kind, front, word, back, hf, rfl⟩ := findAnchor_eq_some_iff.1 h
  refine ⟨anchorAt s.routeIndent kind (grown s.routeIndent front xs) (word ++ back), ?_,
    fun ys => ?_⟩
  · rw [splice_anchorAt]
    exact findAnchor_eq_some_iff.2 ⟨kind, _, word, back, hf.grown hs hxs, rfl⟩
  · rw [splice_anchorAt, splice_anchorAt, grown_grown hs.indent]

end

end Graft.Splice.Routes
