import Graft.Proofs.Text.Insert
import Graft.Proofs.Text.Solid
import Graft.Splice.Routes

/-!
# Where routes go

* `nearest_iff`: the `<Route` that is looked for is the nearest one in front of the first wildcard
  path;
* `findAnchor_eq_some_iff`: an anchor stands in front of the word that it is found by;
* `findAnchor_spec`: routes go to the start of a line, or in front of the marker comment or of a
  route element;
* `findAnchor_moved`: inserting whole lines that show no anchor moves the place for routes with the
  text around it, and changes nothing else about it;
* `splice_moved`: what is inserted at the moved place is what would have been inserted before.
-/

namespace Graft.Splice.Routes

open Text

section
variable {default before : Text} {kind : AnchorKind}

theorem anchorAt_of_indented (h : (lastLine before).all isIndent) (rest : Text) :
    anchorAt default kind before rest =
      .point kind (beforeLastLine before) (lastLine before ++ rest)
        (if (lastLine before).isEmpty then default else lastLine before) :=
  if_pos h

theorem anchorAt_of_not_indented (h : ¬ (lastLine before).all isIndent) (rest : Text) :
    anchorAt default kind before rest = .point kind before rest default :=
  if_neg h

end

theorem anchorAt_spec (default : Text) (kind : AnchorKind) (before rest : Text) :
    before ++ rest =
        (anchorAt default kind before rest).before ++ (anchorAt default kind before rest).rest ∧
      (lastLine (anchorAt default kind before rest).before = [] ∨
        (anchorAt default kind before rest).rest = rest) := by
  by_cases h : (lastLine before).all isIndent
  · rw [anchorAt_of_indented h]
    refine ⟨?_, .inl (lastLine_beforeLastLine before)⟩
    simp only [Anchor.point, Anchor.rest, List.nil_append, ← List.append_assoc,
      beforeLastLine_append_lastLine]
  · rw [anchorAt_of_not_indented h]
    exact ⟨rfl, .inr rfl⟩

@[simp]
theorem kind_anchorAt (default : Text) (kind : AnchorKind) (before rest : Text) :
    (anchorAt default kind before rest).kind = kind := by
  by_cases h : (lastLine before).all isIndent
  · rw [anchorAt_of_indented h, Anchor.point]
  · rw [anchorAt_of_not_indented h, Anchor.point]

/-! ## The word that an anchor is found by -/

theorem routeOpen_ne_nil : routeOpen ≠ [] := by decide +kernel

theorem wildcardPath_ne_nil : wildcardPath ≠ [] := by decide +kernel

/-- The anchor in front of the route element with the wildcard path. -/
def wildcardAnchor? (default : Text) (t : Text) : Option Anchor := do
  let (front, back) ← cut? wildcardPath t
  let (before, inner) ← lastCut? routeOpen front
  some (anchorAt default .wildcardRoute before (routeOpen ++ inner ++ wildcardPath ++ back))

theorem findAnchor_eq (s : AnchorSettings) (t : Text) :
    findAnchor s t =
      match cut? s.fallbackMarker t with
      | some (before, after) =>
        some (anchorAt s.routeIndent .fallbackMarker before (s.fallbackMarker ++ after))
      | none => wildcardAnchor? s.routeIndent t := rfl

theorem wildcardAnchor?_eq {default t front back : Text}
    (h : cut? wildcardPath t = some (front, back)) :
    wildcardAnchor? default t =
      (lastCut? routeOpen front).map fun p =>
        anchorAt default .wildcardRoute p.1 (routeOpen ++ p.2 ++ wildcardPath ++ back) := by
  rw [wildcardAnchor?, h]
  cases ho : lastCut? routeOpen front with
  | none => simp [ho]
  | some p => simp [ho]

theorem wildcardAnchor?_eq_none {default t : Text} (h : cut? wildcardPath t = none) :
    wildcardAnchor? default t = none := by
  rw [wildcardAnchor?, h]
  rfl

/-- A text cut at its first wildcard path, and at the `<Route` that is nearest in front of it. -/
structure Nearest (t before inner back : Text) : Prop where
  parts : t = before ++ routeOpen ++ inner ++ wildcardPath ++ back
  first : contains wildcardPath (before ++ routeOpen ++ inner) = false
  nearest : contains routeOpen inner = false

theorem nearest_iff {t before inner back : Text} :
    Nearest t before inner back ↔
      ∃ front, cut? wildcardPath t = some (front, back) ∧
        lastCut? routeOpen front = some (before, inner) := by
  constructor
  · rintro ⟨rfl, hfirst, hnear⟩
    refine ⟨before ++ routeOpen ++ inner, ?_, ?_⟩
    · rw [List.append_assoc _ wildcardPath]
      exact cut?_of_head (show 'p' ∉ "ath=\"*\"".toList by decide +kernel) hfirst back
    · rw [List.append_assoc]
      exact lastCut?_of_head (show '<' ∉ "Route".toList by decide +kernel) hnear before
  · rintro ⟨front, hcut, hlast⟩
    have hfront := lastCut?_eq_append hlast
    refine ⟨?_, ?_, contains_of_lastCut? routeOpen_ne_nil hlast⟩
    · rw [cut?_eq_append hcut, hfront]
    · rw [← hfront]
      exact contains_of_cut? wildcardPath_ne_nil hcut

theorem Nearest.unique {t before inner back before' inner' back' : Text}
    (h : Nearest t before inner back) (h' : Nearest t before' inner' back') :
    before = before' ∧ inner = inner' ∧ back = back' := by
  obtain ⟨front, hcut, hlast⟩ := nearest_iff.1 h
  obtain ⟨front', hcut', hlast'⟩ := nearest_iff.1 h'
  obtain ⟨rfl, rfl⟩ := Prod.mk.inj (Option.some.inj (hcut.symm.trans hcut'))
  obtain ⟨rfl, rfl⟩ := Prod.mk.inj (Option.some.inj (hlast.symm.trans hlast'))
  exact ⟨rfl, rfl, rfl⟩

theorem wildcardAnchor?_eq_some_iff {default t : Text} {a : Anchor} :
    wildcardAnchor? default t = some a ↔
      ∃ before inner back, Nearest t before inner back ∧
        a = anchorAt default .wildcardRoute before
          (routeOpen ++ inner ++ wildcardPath ++ back) := by
  constructor
  · intro h
    cases hcut : cut? wildcardPath t with
    | none =>
      rw [wildcardAnchor?_eq_none hcut] at h
      cases h
    | some f =>
      obtain ⟨front, back⟩ := f
      rw [wildcardAnchor?_eq hcut] at h
      obtain ⟨⟨before, inner⟩, hlast, ha⟩ := Option.map_eq_some_iff.1 h
      exact ⟨before, inner, back, nearest_iff.2 ⟨front, hcut, hlast⟩, ha.symm⟩
  · rintro ⟨before, inner, back, hn, rfl⟩
    obtain ⟨front, hcut, hlast⟩ := nearest_iff.1 hn
    rw [wildcardAnchor?_eq hcut, hlast, Option.map_some]

/-- The word that an anchor of this shape is found by, with what stands around it. -/
inductive FoundBy (s : AnchorSettings) (t : Text) : AnchorKind → Text → Text → Text → Prop
  | marker {front back : Text} (first : cut? s.fallbackMarker t = some (front, back)) :
      FoundBy s t .fallbackMarker front s.fallbackMarker back
  | route {front inner back : Text} (unmarked : contains s.fallbackMarker t = false)
      (nearest : Nearest t front inner back) :
      FoundBy s t .wildcardRoute front routeOpen (inner ++ wildcardPath ++ back)

theorem FoundBy.parts {s : AnchorSettings} {t front word back : Text} {kind : AnchorKind}
    (h : FoundBy s t kind front word back) : t = front ++ (word ++ back) := by
  cases h with
  | marker first => rw [cut?_eq_append first, List.append_assoc]
  | route _ nearest =>
    rw [nearest.parts]
    simp only [List.append_assoc]

/-- The anchor stands in front of the word that it is found by. -/
theorem findAnchor_eq_some_iff {s : AnchorSettings} {t : Text} {a : Anchor} :
    findAnchor s t = some a ↔
      ∃ kind front word back, FoundBy s t kind front word back ∧
        a = anchorAt s.routeIndent kind front (word ++ back) := by
  rw [findAnchor_eq]
  cases hcut : cut? s.fallbackMarker t with
  | some p =>
    obtain ⟨front, back⟩ := p
    constructor
    · intro h
      exact ⟨_, front, _, back, .marker hcut, (Option.some.inj h).symm⟩
    · rintro ⟨_, _, _, _, hf, rfl⟩
      cases hf with
      | marker first =>
        obtain ⟨rfl, rfl⟩ := Prod.mk.inj (Option.some.inj (hcut.symm.trans first))
        rfl
      | route unmarked => rw [contains, hcut] at unmarked; cases unmarked
  | none =>
    have hnone := contains_eq_false_iff.2 hcut
    dsimp only
    rw [wildcardAnchor?_eq_some_iff]
    constructor
    · rintro ⟨front, inner, back, hn, rfl⟩
      exact ⟨_, front, _, _, .route hnone hn, by simp only [List.append_assoc]⟩
    · rintro ⟨_, _, _, _, hf, rfl⟩
      cases hf with
      | marker first => rw [hcut] at first; cases first
      | route _ nearest => exact ⟨_, _, _, nearest, by simp only [List.append_assoc]⟩

/-- Routes go to the start of a line, or in front of the marker comment or of a route element. -/
theorem findAnchor_spec {s : AnchorSettings} {t : Text} {a : Anchor} (h : findAnchor s t = some a) :
    t = a.before ++ a.rest ∧
      (lastLine a.before = [] ∨ s.fallbackMarker <+: a.rest ∨ routeOpen <+: a.rest) := by
  obtain ⟨kind, front, word, back, hf, rfl⟩ := findAnchor_eq_some_iff.1 h
  obtain ⟨ht, hl⟩ := anchorAt_spec s.routeIndent kind front (word ++ back)
  refine ⟨hf.parts.trans ht, hl.imp_right fun hl => ?_⟩
  rw [hl]
  cases hf with
  | marker => exact .inl (List.prefix_append _ _)
  | route => exact .inr (List.prefix_append _ _)

theorem findAnchor_isSome_of_marker {s : AnchorSettings} {t : Text}
    (h : contains s.fallbackMarker t) : ∃ a, findAnchor s t = some a := by
  obtain ⟨p, hp⟩ := Option.isSome_iff_exists.1 h
  unfold findAnchor
  rw [hp]
  exact ⟨_, rfl⟩

/-! ## What is inserted -/

/-- What is inserted at an anchor: the routes, on lines of their own. -/
def inserted (a : Anchor) (snippets : List Text) : Text :=
  if (lastLine a.before).isEmpty then block a.indent snippets
  else '\n' :: block a.indent snippets ++ a.indent

theorem splice_text (a : Anchor) (snippets : List Text) :
    (splice a snippets).text = a.before ++ inserted a snippets ++ a.rest := by
  simp only [splice, inserted]
  split <;> rfl

/-- A solid word of a route is shown by what is inserted. -/
theorem contains_inserted {w s : Text} (hw : Solid w) {snippets : List Text} (hs : s ∈ snippets)
    (h : contains w s) (a : Anchor) : contains w (inserted a snippets) := by
  have hb : contains w (block a.indent snippets) := by
    rw [contains_iff_isInfix]
    have hi := contains_iff_isInfix.1 (hw.contains_indentBlock h a.indent)
    have hf : indentBlock s a.indent ++ "\n\n".toList <:+: block a.indent snippets :=
      List.infix_of_mem_flatten (List.mem_map.2 ⟨s, hs, rfl⟩)
    exact (hi.trans (List.prefix_append _ _).isInfix).trans hf
  unfold inserted
  split
  · exact hb
  · exact contains_append_left (contains_append_right ['\n'] hb) a.indent

/-- No end of the word begins like the marker comment or a route element. -/
def Uncut (s : AnchorSettings) (w : Text) : Prop :=
  ∀ o, o = s.fallbackMarker ∨ o = routeOpen →
    ∀ u v, u ≠ [] → v ≠ [] → w = u ++ v → ¬ v <+: o ∧ ¬ o <+: v

/-- A word on one line that lies across the place for routes ends in a beginning of the marker
comment or of a route element. -/
theorem not_straddles_findAnchor {s : AnchorSettings} {t w : Text} {a : Anchor}
    (h : findAnchor s t = some a) (hw : '\n' ∉ w) (hcut : Uncut s w) :
    ¬ Straddles w a.before a.rest := by
  have hfront : ∀ o, o = s.fallbackMarker ∨ o = routeOpen → o <+: a.rest →
      ¬ Straddles w a.before a.rest := by
    rintro o ho hp ⟨u, v, hu, hv, hw', _, hb⟩
    obtain ⟨hvo, hov⟩ := hcut o ho u v hu hv hw'
    exact (List.prefix_or_prefix_of_prefix hb hp).elim hvo hov
  rcases (findAnchor_spec h).2 with hl | hm | ho
  · exact not_straddles_of_lineStart hl hw
  · exact hfront _ (.inl rfl) hm
  · exact hfront _ (.inr rfl) ho

/-- A word that goes on without the characters that the marker comment and a route element begin
with is cut by neither. -/
theorem uncut_of_head {s : AnchorSettings} {w : Text} (hs : s.fallbackMarker ≠ [])
    (h : ∀ c ∈ w.tail, s.fallbackMarker.head? ≠ some c ∧ routeOpen.head? ≠ some c) :
    Uncut s w := by
  have hhead : ∀ o v : Text, o ≠ [] → v ≠ [] → (v <+: o ∨ o <+: v) → ∃ c ∈ v, o.head? = some c := by
    rintro (_ | ⟨c, o⟩) (_ | ⟨d, v⟩) ho hv hp
    · exact absurd rfl ho
    · exact absurd rfl ho
    · exact absurd rfl hv
    · refine ⟨d, List.mem_cons_self, ?_⟩
      rcases hp with hp | hp
      · rw [(List.cons_prefix_cons.1 hp).1]
        rfl
      · rw [(List.cons_prefix_cons.1 hp).1]
        rfl
  rintro o ho u v hu hv rfl
  have ho' : o ≠ [] := by
    rcases ho with rfl | rfl
    · exact hs
    · exact routeOpen_ne_nil
  rw [← not_or]
  intro hp
  obtain ⟨c, hc, hoc⟩ := hhead o v ho' hv hp
  rw [List.tail_append_of_ne_nil hu] at h
  obtain ⟨hm, hr⟩ := h c (List.mem_append_right u.tail hc)
  rcases ho with rfl | rfl
  · exact hm hoc
  · exact hr hoc

/-! ## Inserting lines elsewhere -/

/-- The anchors `a` on `x ++ y` and `a'` on `x ++ c ++ y` are at the same place of the text that the
two have in common, and look the same from there. -/
structure Moved (x c y : Text) (a a' : Anchor) : Prop where
  text : x ++ y = a.before ++ a.rest
  place : x.length ≤ a.before.length ∧
      (∃ z, a.before = x ++ z ∧ a'.before = x ++ c ++ z ∧ a'.rest = a.rest) ∨
    a.before.length < x.length ∧
      ∃ z, x = a.before ++ z ∧ a'.before = a.before ∧ a'.rest = z ++ c ++ y
  indent : a'.indent = a.indent
  kind : a'.kind = a.kind
  lineStart : lastLine a'.before = lastLine a.before

variable {x c y : Text}

/-- What is inserted at a moved place is inserted at the place it came from, behind the lines that
moved it if they stand in front of it. -/
theorem splice_moved {a a' : Anchor} (h : Moved x c y a a') (snippets : List Text) :
    (splice a' snippets).text =
      insertAt (a.before.length + if x.length ≤ a.before.length then c.length else 0)
        (inserted a snippets) (insertAt x.length c (x ++ y)) := by
  have hi : inserted a' snippets = inserted a snippets := by
    simp only [inserted, h.indent, h.lineStart]
  rw [splice_text, hi, insertAt_append]
  rcases h.place with ⟨hle, z, hb, hb', hr⟩ | ⟨hlt, z, hx, hb, hr⟩
  · have ht : x ++ c ++ y = (x ++ c ++ z) ++ a.rest := by
      have hy : x ++ y = x ++ (z ++ a.rest) := by rw [h.text, hb, List.append_assoc]
      rw [List.append_cancel_left hy]
      simp only [List.append_assoc]
    have hn : a.before.length + c.length = (x ++ c ++ z).length := by
      rw [hb]
      simp only [List.length_append]
      omega
    rw [if_pos hle, hn, ht, insertAt_append, hb', hr]
  · have ht : x ++ c ++ y = a.before ++ (z ++ c ++ y) := by
      rw [hx]
      simp only [List.append_assoc]
    rw [if_neg (by omega), Nat.add_zero, ht, insertAt_append, hb, hr]

theorem moved_anchorAt_left (default : Text) (kind : AnchorKind) (before z c y : Text)
    (hz : z ≠ []) :
    Moved (before ++ z) c y (anchorAt default kind before (z ++ y))
      (anchorAt default kind before (z ++ c ++ y)) := by
  have hlen : 0 < z.length := List.length_pos_iff.2 hz
  have hb := beforeLastLine_append_lastLine before
  have ht := (anchorAt_spec default kind before (z ++ y)).1
  rw [← List.append_assoc] at ht
  by_cases h : (lastLine before).all isIndent
  · rw [anchorAt_of_indented h] at ht ⊢
    rw [anchorAt_of_indented h]
    refine ⟨ht, .inr ⟨?_, lastLine before ++ z, ?_, rfl, ?_⟩, rfl, rfl, rfl⟩
    · have hbl := congrArg List.length hb
      simp only [Anchor.point, List.length_append] at hbl ⊢
      omega
    · simp only [Anchor.point, ← List.append_assoc, hb]
    · simp only [Anchor.point, Anchor.rest, List.nil_append, List.append_assoc]
  · rw [anchorAt_of_not_indented h] at ht ⊢
    rw [anchorAt_of_not_indented h]
    refine ⟨ht, .inr ⟨?_, z, rfl, rfl, rfl⟩, rfl, rfl, rfl⟩
    simp only [Anchor.point, List.length_append]
    omega

theorem moved_anchorAt_right (default : Text) (kind : AnchorKind) (z rest : Text)
    (hx : lastLine x = []) (hc : lastLine (x ++ c) = []) :
    Moved x c (z ++ rest) (anchorAt default kind (x ++ z) rest)
      (anchorAt default kind (x ++ c ++ z) rest) := by
  have hl := lastLine_append hx z
  have hl' := lastLine_append hc z
  have ht := (anchorAt_spec default kind (x ++ z) rest).1
  rw [List.append_assoc] at ht
  by_cases h : (lastLine z).all isIndent
  · rw [anchorAt_of_indented (hl ▸ h)] at ht ⊢
    rw [anchorAt_of_indented (hl' ▸ h)]
    rw [hl, hl', beforeLastLine_append hx, beforeLastLine_append hc] at *
    refine ⟨ht, .inl ⟨?_, beforeLastLine z, rfl, rfl, rfl⟩, rfl, rfl, ?_⟩
    · simp only [Anchor.point, List.length_append]
      omega
    · simp only [Anchor.point, lastLine_append hx, lastLine_append hc]
  · rw [anchorAt_of_not_indented (hl ▸ h)] at ht ⊢
    rw [anchorAt_of_not_indented (hl' ▸ h)]
    refine ⟨ht, .inl ⟨?_, z, rfl, rfl, rfl⟩, rfl, rfl, ?_⟩
    · simp only [Anchor.point, List.length_append]
      omega
    · simp only [Anchor.point, hl, hl']

/-- The anchors on `x ++ y` and on `x ++ c ++ y` are both absent, or at one place. -/
def MovedIn (x c y : Text) (find : Text → Option Anchor) : Prop :=
  find (x ++ y) = none ∧ find (x ++ c ++ y) = none ∨
    ∃ a a', find (x ++ y) = some a ∧ find (x ++ c ++ y) = some a' ∧ Moved x c y a a'

theorem lineStart_of_cut? {w front rest : Text} (hx : lastLine x = [] ∨ y = []) (hw : w ≠ [])
    (h : cut? w y = some (front, rest)) : lastLine x = [] := by
  rcases hx with hx | rfl
  · exact hx
  · have hy := cut?_eq_append h
    simp only [List.nil_eq, List.append_eq_nil_iff] at hy
    exact absurd hy.1.2 hw

theorem wildcardAnchor?_moved (default : Text) (hwild : Clear wildcardPath x c y)
    (hopen : Clear routeOpen x c y) (hx : lastLine x = [] ∨ y = [])
    (hc : lastLine (x ++ c) = []) : MovedIn x c y (wildcardAnchor? default) := by
  cases hwx : cut? wildcardPath x with
  | some p =>
    obtain ⟨front, rest⟩ := p
    unfold MovedIn
    rw [wildcardAnchor?_eq (cut?_append_of_some hwx y),
      wildcardAnchor?_eq (Clear.cut?_left hwx c y)]
    cases ho : lastCut? routeOpen front with
    | none => exact .inl ⟨rfl, rfl⟩
    | some q =>
      obtain ⟨before, inner⟩ := q
      refine .inr ⟨_, _, rfl, rfl, ?_⟩
      have h := moved_anchorAt_left default .wildcardRoute before
        (routeOpen ++ inner ++ wildcardPath ++ rest) c y (by simp [routeOpen_ne_nil])
      rw [cut?_eq_append hwx, lastCut?_eq_append ho]
      simpa only [List.append_assoc] using h
  | none =>
    obtain ⟨hxy, hxcy⟩ := hwild.cut?_right hwx
    cases hwy : cut? wildcardPath y with
    | none =>
      rw [hwy] at hxy hxcy
      exact .inl ⟨wildcardAnchor?_eq_none hxy, wildcardAnchor?_eq_none hxcy⟩
    | some p =>
      obtain ⟨front, back⟩ := p
      rw [hwy] at hxy hxcy
      have hy := cut?_eq_append hwy
      unfold MovedIn
      rw [wildcardAnchor?_eq hxy, wildcardAnchor?_eq hxcy]
      cases ho : lastCut? routeOpen front with
      | some q =>
        obtain ⟨before, inner⟩ := q
        rw [lastCut?_append_of_some ho, Clear.lastCut?_right ho]
        refine .inr ⟨_, _, rfl, rfl, ?_⟩
        have h := moved_anchorAt_right default .wildcardRoute before
          (routeOpen ++ inner ++ wildcardPath ++ back)
          (lineStart_of_cut? hx wildcardPath_ne_nil hwy) hc
        rw [hy, lastCut?_eq_append ho]
        simpa only [List.append_assoc] using h
      | none =>
        -- the route element begins in front of the lines, and they go inside it
        have hf : front <+: y := ⟨wildcardPath ++ back, by rw [hy, List.append_assoc]⟩
        obtain ⟨hl, hl'⟩ := (hopen.of_prefix hf).lastCut?_left ho
        rw [hl, hl']
        cases hox : lastCut? routeOpen x with
        | none => exact .inl ⟨rfl, rfl⟩
        | some q =>
          obtain ⟨before, inner⟩ := q
          refine .inr ⟨_, _, rfl, rfl, ?_⟩
          have h := moved_anchorAt_left default .wildcardRoute before (routeOpen ++ inner) c y
            (by simp [routeOpen_ne_nil])
          rw [lastCut?_eq_append hox]
          rw [hy] at h ⊢
          simpa only [List.append_assoc] using h

/-- Lines that show neither the marker comment nor a part of a wildcard route move the place for
routes with the text around it. -/
theorem findAnchor_moved {s : AnchorSettings} (hm : s.fallbackMarker ≠ [])
    (hmarker : Clear s.fallbackMarker x c y) (hwild : Clear wildcardPath x c y)
    (hopen : Clear routeOpen x c y) (hx : lastLine x = [] ∨ y = [])
    (hc : lastLine (x ++ c) = []) : MovedIn x c y (findAnchor s) := by
  unfold MovedIn
  simp only [findAnchor_eq]
  cases hmx : cut? s.fallbackMarker x with
  | some p =>
    obtain ⟨front, rest⟩ := p
    rw [cut?_append_of_some hmx, Clear.cut?_left hmx]
    refine .inr ⟨_, _, rfl, rfl, ?_⟩
    have h := moved_anchorAt_left s.routeIndent .fallbackMarker front (s.fallbackMarker ++ rest) c y
      (by simp [hm])
    rw [cut?_eq_append hmx]
    simpa only [List.append_assoc] using h
  | none =>
    obtain ⟨hxy, hxcy⟩ := hmarker.cut?_right hmx
    rw [hxy, hxcy]
    cases hmy : cut? s.fallbackMarker y with
    | some p =>
      obtain ⟨front, rest⟩ := p
      refine .inr ⟨_, _, rfl, rfl, ?_⟩
      have h := moved_anchorAt_right s.routeIndent .fallbackMarker front (s.fallbackMarker ++ rest)
        (lineStart_of_cut? hx hm hmy) hc
      rwa [← List.append_assoc front, ← cut?_eq_append hmy] at h
    | none => exact wildcardAnchor?_moved s.routeIndent hwild hopen hx hc

end Graft.Splice.Routes
