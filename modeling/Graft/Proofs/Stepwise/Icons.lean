import Graft.Proofs.Splice.Frame
import Graft.Proofs.Text.Block
import Graft.Proofs.Text.Piece

/-!
# Icons in several steps

Icons that were merged into a list are bound by it, and the list keeps its layout, so that more of
them are merged as if they had come with the first.

* `fresh_append`: the icons that are new come one after the other;
* `namesOf_extended`: the list binds what it bound, and the icons that were added;
* `extended_extended`: what is added in two steps is laid out as if it had been added in one;
* `exists_resumed`: the list is found again.
-/

namespace Graft.Splice.Icons

open Text

/-! ## New icons -/

theorem fresh_congr {seen seen' : List Text} (h : ∀ n, n ∈ seen ↔ n ∈ seen') (icons : List Text) :
    fresh seen icons = fresh seen' icons := by
  induction icons generalizing seen seen' with
  | nil => rfl
  | cons icon icons ih =>
    have hc : seen.contains (trim icon) = seen'.contains (trim icon) := by
      rw [Bool.eq_iff_iff, List.contains_iff_mem, List.contains_iff_mem]
      exact h _
    have hcons : ∀ n, n ∈ trim icon :: seen ↔ n ∈ trim icon :: seen' := by
      intro n
      rw [List.mem_cons, List.mem_cons, h n]
    simp only [fresh, hc, ih h, ih hcons]

/-- The icons that are new come one after the other. -/
theorem fresh_append (seen xs ys : List Text) :
    fresh seen (xs ++ ys) = fresh seen xs ++ fresh (fresh seen xs ++ seen) ys := by
  induction xs generalizing seen with
  | nil => rfl
  | cons x xs ih =>
    simp only [List.cons_append, fresh]
    split
    · exact ih seen
    · rw [ih, List.cons_append]
      congr 2
      refine fresh_congr (fun n => ?_) ys
      simp only [List.mem_append, List.mem_cons]
      exact or_left_comm.trans or_assoc.symm

/-! ## What a list binds -/

theorem namesOf_append (a b : Text) : namesOf (a ++ ',' :: b) = namesOf a ++ namesOf b := by
  rw [namesOf, splitAt_append, List.filterMap_append]
  rfl

theorem firstWord?_blank_append {gap : Text} (hg : isBlank gap) (t : Text) :
    firstWord? (gap ++ t) = firstWord? t := by
  rw [firstWord?, firstWord?, trimStart_blank_append hg]

theorem firstWord?_append_blank {gap : Text} (hg : isBlank gap) (t : Text) :
    firstWord? (t ++ gap) = firstWord? t := by
  have hall := List.all_eq_true.1 hg
  have hstart : ∀ u : Text, (u ++ gap).takeWhile (fun c => !isSpace c) =
      u.takeWhile fun c => !isSpace c := by
    intro u
    have hnone : gap.takeWhile (fun c => !isSpace c) = [] := by
      cases gap with
      | nil => rfl
      | cons c gap => simp [hall c List.mem_cons_self]
    rw [List.takeWhile_append, hnone, List.append_nil]
    split
    · rename_i hlen
      exact ((List.takeWhile_prefix _).eq_of_length hlen).symm
    · rfl
  have htrim : trimStart (t ++ gap) = trimStart t ++ gap ∨
      trimStart (t ++ gap) = trimStart t := by
    rw [trimStart, List.dropWhile_append]
    split
    · rename_i hempty
      right
      rw [trimStart, List.isEmpty_iff.1 hempty, ← List.append_nil gap,
        List.dropWhile_append_of_pos hall]
      rfl
    · exact .inl rfl
  rcases htrim with h | h
  · rw [firstWord?, firstWord?, h, hstart]
  · rw [firstWord?, firstWord?, h]

theorem firstWord?_isSome {t : Text} (h : isBlank t = false) : (firstWord? t).isSome := by
  have hs : trimStart t ≠ [] := by
    intro hnil
    have hall : isBlank (t.takeWhile isSpace) := List.all_takeWhile
    rw [← List.takeWhile_append_dropWhile (p := isSpace) (l := t), ← trimStart, hnil,
      List.append_nil, hall] at h
    cases h
  obtain ⟨c, u, hu⟩ := List.exists_cons_of_ne_nil hs
  have hc := stops_dropWhile isSpace t c (by rw [← trimStart, hu]; rfl)
  rw [firstWord?, hu]
  simp [hc]

theorem namesOf_of_notMem {t : Text} (h : ',' ∉ t) : namesOf t = (firstWord? t).toList := by
  rw [namesOf, splitAt_of_notMem h]
  cases hw : firstWord? t with
  | none => simp [hw]
  | some w => simp [hw]

theorem comma_notMem {gap : Text} (hg : isBlank gap) : ',' ∉ gap := notMem_of_isBlank hg rfl

/-- What stands in front of a list goes into its first part. -/
theorem exists_append_namesOf (t : Text) :
    ∃ part names, ∀ s, ',' ∉ s → namesOf (s ++ t) = (firstWord? (s ++ part)).toList ++ names := by
  by_cases h : ',' ∈ t
  · obtain ⟨u, v, rfl, hu⟩ := List.eq_append_cons_of_mem h
    refine ⟨u, namesOf v, fun s hs => ?_⟩
    rw [← List.append_assoc, namesOf_append, namesOf_of_notMem (by simp [hs, hu])]
  · refine ⟨t, [], fun s hs => ?_⟩
    rw [namesOf_of_notMem (by simp [hs, h]), List.append_nil]

/-- What stands behind a list goes into its last part. -/
theorem exists_namesOf_append (t : Text) :
    ∃ part names, ',' ∉ part ∧ ∀ s, namesOf (t ++ s) = names ++ namesOf (part ++ s) := by
  by_cases h : ',' ∈ t
  · obtain ⟨u, v, hrev, hu⟩ := List.eq_append_cons_of_mem (List.mem_reverse.2 h)
    have ht : t = v.reverse ++ ',' :: u.reverse := by
      rw [← List.reverse_reverse t, hrev]
      simp
    refine ⟨u.reverse, namesOf v.reverse, by simpa using hu, fun s => ?_⟩
    rw [ht, List.append_assoc, List.cons_append, namesOf_append]
  · exact ⟨t, [], h, fun s => rfl⟩

/-- Blanks in front of a list bind nothing. -/
theorem namesOf_blank_append {gap : Text} (hg : isBlank gap) (t : Text) :
    namesOf (gap ++ t) = namesOf t := by
  obtain ⟨part, names, h⟩ := exists_append_namesOf t
  have hnil := h [] List.not_mem_nil
  rw [List.nil_append, List.nil_append] at hnil
  rw [h gap (comma_notMem hg), firstWord?_blank_append hg, hnil]

/-- Blanks behind a list bind nothing. -/
theorem namesOf_append_blank {gap : Text} (hg : isBlank gap) (t : Text) :
    namesOf (t ++ gap) = namesOf t := by
  obtain ⟨part, names, hpart, h⟩ := exists_namesOf_append t
  have hnil := h []
  rw [List.append_nil, List.append_nil] at hnil
  rw [h gap, namesOf_of_notMem (by simp [hpart, comma_notMem hg]), firstWord?_append_blank hg, hnil,
    namesOf_of_notMem hpart]

theorem namesOf_blank {gap : Text} (hg : isBlank gap) : namesOf gap = [] := by
  have h := namesOf_blank_append hg []
  rw [List.append_nil] at h
  rw [h]
  rfl

theorem trimStart_identifier {icon : Text} (h : Identifier icon) : trimStart icon = icon := by
  obtain ⟨c, u, rfl, hc⟩ := h.solid.first
  rw [trimStart, List.dropWhile_cons_of_neg (by simp [hc])]

theorem trim_identifier {icon : Text} (h : Identifier icon) : trim icon = icon := by
  rw [trim, trimStart_identifier h, trimEnd_of_last h.solid.last]

theorem namesOf_identifier {icon : Text} (h : Identifier icon) : namesOf icon = [icon] := by
  have hspace : ∀ c ∈ icon, isSpace c = false := fun c hc =>
    isSpace_eq_false_of_isIdentRest (h.rest c hc)
  have hcomma : ',' ∉ icon := fun hm => absurd (h.rest _ hm) (by decide)
  have hword : ∀ c ∈ icon, (!isSpace c) = true := fun c hc => by rw [hspace c hc]; rfl
  have htake := takeWhile_append_of_stops (b := []) hword (by simp [Stops])
  rw [List.append_nil] at htake
  rw [namesOf_of_notMem hcomma, firstWord?, trimStart_identifier h, htake.1,
    if_neg (by simpa using h.ne_nil)]
  rfl

/-- A list of texts, with commas and blanks between them, binds what they bind. -/
theorem namesOf_joinWith {gap : Text} (hg : isBlank gap) (ts : List Text) :
    namesOf (joinWith (',' :: gap) ts) = ts.flatMap namesOf := by
  induction ts with
  | nil => rfl
  | cons t ts ih =>
    cases ts with
    | nil => simp [joinWith]
    | cons u us =>
      have hcut : joinWith (',' :: gap) (t :: u :: us) =
          t ++ ',' :: (gap ++ joinWith (',' :: gap) (u :: us)) := by
        simp [joinWith]
      rw [hcut, namesOf_append, namesOf_blank_append hg, ih]
      rfl

theorem namesOf_items {indent : Text} (hi : isBlank indent) {icons : List Text}
    (h : ∀ icon ∈ icons, Identifier icon) :
    (icons.map fun icon => indent ++ icon).flatMap namesOf = icons := by
  induction icons with
  | nil => rfl
  | cons icon icons ih =>
    obtain ⟨hicon, hicons⟩ := List.forall_mem_cons.1 h
    rw [List.map_cons, List.flatMap_cons, ih hicons, namesOf_blank_append hi,
      namesOf_identifier hicon]
    rfl

/-! ## Layouts -/

/-- How icons are laid out in a list: what stands in front of them, behind the commas between them,
in front of each, and behind them. -/
structure Layout where
  front : Text
  gap : Text
  lead : Text
  back : Text

/-- The icons of a list, as they are laid out. -/
def Layout.items (l : Layout) (icons : List Text) : Text :=
  joinWith (',' :: l.gap) (icons.map fun icon => l.lead ++ icon)

def Layout.write (l : Layout) (icons : List Text) : Text := l.front ++ l.items icons ++ l.back

/-- The layout of the icons that are added to a list. -/
def layout (list indent : Text) : Layout :=
  let kept := trimEnd list
  if isBlank kept then ⟨[' '], [' '], [], [' ']⟩
  else if multiline list then
    if endsWith ',' kept then ⟨kept, [], '\n' :: indent, ',' :: trailing list⟩
    else ⟨kept ++ [','], [], '\n' :: indent, trailing list⟩
  else if endsWith ',' kept then ⟨kept ++ [' '], [' '], [], ',' :: trailing list⟩
  else ⟨kept ++ [',', ' '], [' '], [], trailing list⟩

theorem extended_eq_write (list indent : Text) {icons : List Text} (h : icons ≠ []) :
    extended list indent icons = (layout list indent).write icons := by
  have hsep : ", ".toList = [',', ' '] := rfl
  have hitems : icons.map (fun icon => '\n' :: indent ++ icon) ≠ [] := by simpa using h
  simp only [extended, layout, Layout.write, Layout.items, hsep]
  split
  · simp
  · split
    · split
      · rw [flatten_commas hitems]
        simp
      · simp
    · split
      · simp
      · simp

/-- The layout of a list by its parts. -/
theorem layout_append {body t indent : Text} (hb : ∃ u c, body = u ++ [c] ∧ isSpace c = false)
    (ht : isBlank t) :
    layout (body ++ t) indent =
      if multiline (body ++ t) then
        if endsWith ',' body then ⟨body, [], '\n' :: indent, ',' :: t⟩
        else ⟨body ++ [','], [], '\n' :: indent, t⟩
      else if endsWith ',' body then ⟨body ++ [' '], [' '], [], ',' :: t⟩
      else ⟨body ++ [',', ' '], [' '], [], t⟩ := by
  have htrim : trimEnd (body ++ t) = body := trimEnd_append_blank hb ht
  have htrail : trailing (body ++ t) = t := by
    have h := trimEnd_append_trailing (body ++ t)
    rw [htrim] at h
    exact List.append_cancel_left h
  have hblank : ¬ isBlank body := by
    obtain ⟨u, c, rfl, hc⟩ := hb
    intro h
    exact notMem_of_isBlank h hc (by simp)
  simp only [layout, htrim, htrail, if_neg hblank]

theorem multiline_iff {t : Text} : multiline t = true ↔ '\n' ∈ t := by
  simp [multiline]

section
variable {list indent : Text} {icons : List Text} (hne : icons ≠ [])
  (hid : ∀ icon ∈ icons, Identifier icon)
include hne hid

omit hid in
theorem Layout.exists_lastItem (l : Layout) :
    ∃ q, ∃ icon ∈ icons, l.items icons = q ++ (l.lead ++ icon) := by
  rcases List.eq_nil_or_concat icons with rfl | ⟨is, icon, rfl⟩
  · exact absurd rfl hne
  · rw [List.concat_eq_append]
    obtain ⟨q, hq, -⟩ := joinWith_concat (',' :: l.gap)
      (is.map fun icon => l.lead ++ icon) (l.lead ++ icon)
    refine ⟨q, icon, by simp, ?_⟩
    rw [items, List.map_append, List.map_singleton, hq]

/-- The icons of a list end with a character of an identifier. -/
theorem Layout.exists_items (l : Layout) :
    ∃ u c, l.items icons = u ++ [c] ∧ isIdentRest c = true := by
  obtain ⟨q, icon, hicon, hq⟩ := l.exists_lastItem hne
  rcases List.eq_nil_or_concat icon with rfl | ⟨v, c, rfl⟩
  · exact absurd rfl (hid _ hicon).ne_nil
  · rw [List.concat_eq_append] at hicon hq
    refine ⟨q ++ (l.lead ++ v), c, ?_, (hid _ hicon).rest c (by simp)⟩
    rw [hq]
    simp only [List.append_assoc]

omit hne in
theorem Layout.notMem_items {l : Layout} (hg : '\n' ∉ l.gap) (hl : '\n' ∉ l.lead) :
    '\n' ∉ l.items icons := by
  intro h
  rcases mem_joinWith h with h | ⟨t, ht, h⟩
  · rcases List.mem_cons.1 h with h | h
    · exact absurd h (by decide)
    · exact hg h
  · obtain ⟨icon, hicon, rfl⟩ := List.mem_map.1 ht
    rcases List.mem_append.1 h with h | h
    · exact hl h
    · exact absurd ((hid icon hicon).rest _ h) (by decide)

/-- The layout of a list that ends with icons. -/
theorem layout_items (p : Text) (l : Layout) {t : Text} (ht : isBlank t) (indent : Text) :
    layout (p ++ l.items icons ++ t) indent =
      if multiline (p ++ l.items icons ++ t) then
        ⟨p ++ l.items icons ++ [','], [], '\n' :: indent, t⟩
      else ⟨p ++ l.items icons ++ [',', ' '], [' '], [], t⟩ := by
  obtain ⟨u, c, hu, hc⟩ := l.exists_items hne hid
  have hspace : isSpace c = false := isSpace_eq_false_of_isIdentRest hc
  have hends : endsWith ',' (p ++ l.items icons) = false := by
    rw [hu, ← List.append_assoc, endsWith_concat]
    refine Bool.eq_false_iff.2 fun h => ?_
    obtain rfl := beq_iff_eq.1 h
    exact absurd hc (by decide)
  have hlast : ∃ v d, p ++ l.items icons = v ++ [d] ∧ isSpace d = false :=
    ⟨p ++ u, c, by rw [hu, List.append_assoc], hspace⟩
  rw [layout_append hlast ht, hends]
  rfl

omit hne hid in
/-- The layout of a list that ends with a comma. -/
theorem layout_comma (p : Text) {t : Text} (ht : isBlank t) (indent : Text) :
    layout (p ++ [','] ++ t) indent =
      if multiline (p ++ [','] ++ t) then ⟨p ++ [','], [], '\n' :: indent, ',' :: t⟩
      else ⟨p ++ [','] ++ [' '], [' '], [], ',' :: t⟩ := by
  have hends : endsWith ',' (p ++ [',']) = true := by rw [endsWith_concat]; rfl
  rw [layout_append ⟨p, ',', rfl, rfl⟩ ht, hends]
  rfl

omit hne hid in
/-- The layout of a list of several lines. -/
theorem layout_of_multiline {list : Text} (hb : ¬ isBlank (trimEnd list)) (hm : multiline list)
    (indent : Text) :
    ∃ front comma, (front = trimEnd list ∨ front = trimEnd list ++ [',']) ∧
      (comma = [] ∨ comma = [',']) ∧
      layout list indent = ⟨front, [], '\n' :: indent, comma ++ trailing list⟩ := by
  simp only [layout, if_neg hb, if_pos hm]
  split
  · exact ⟨_, [','], .inl rfl, .inr rfl, rfl⟩
  · exact ⟨_, [], .inr rfl, .inl rfl, rfl⟩

omit hne hid in
/-- The layout of a list on one line. -/
theorem layout_of_line {list : Text} (h : isBlank (trimEnd list) ∨ ¬ multiline list)
    (indent : Text) :
    (layout list indent).gap = [' '] ∧ (layout list indent).lead = [] ∧
      '\n' ∉ (layout list indent).front ∧ '\n' ∉ (layout list indent).back := by
  have hspace : '\n' ∉ [' '] := by decide
  by_cases hb : isBlank (trimEnd list)
  · rw [show layout list indent = ⟨[' '], [' '], [], [' ']⟩ from if_pos hb]
    exact ⟨rfl, rfl, hspace, hspace⟩
  · have hm := h.resolve_left hb
    have hkept : '\n' ∉ trimEnd list ∧ '\n' ∉ trailing list := by
      rwa [multiline_iff, ← trimEnd_append_trailing list, List.mem_append, not_or] at hm
    simp only [layout, if_neg hb, if_neg hm]
    split
    · exact ⟨rfl, rfl, by simp [hkept.1], by simp [hkept.2]⟩
    · exact ⟨rfl, rfl, by simp [hkept.1], by simp [hkept.2]⟩

/-- A list with icons has several lines if it had some, and held more than blanks. -/
theorem multiline_write (list indent : Text) :
    multiline ((layout list indent).write icons) ↔
      ¬ isBlank (trimEnd list) ∧ multiline list := by
  by_cases h : ¬ isBlank (trimEnd list) ∧ multiline list
  · obtain ⟨front, comma, -, -, hl⟩ := layout_of_multiline h.1 h.2 indent
    obtain ⟨q, icon, -, hq⟩ := (layout list indent).exists_lastItem hne
    rw [multiline_iff, Layout.write, hq, hl]
    simp [h]
  · have hone : isBlank (trimEnd list) ∨ ¬ multiline list := by
      by_cases hb : isBlank (trimEnd list)
      · exact .inl hb
      · exact .inr fun hm => h ⟨hb, hm⟩
    obtain ⟨hg, hl, hf, hback⟩ := layout_of_line hone indent
    have hitems := Layout.notMem_items hid (hg ▸ (by decide : '\n' ∉ [' '])) (hl ▸ List.not_mem_nil)
    simp only [multiline_iff, Layout.write, List.mem_append, hf, hback, hitems, or_self,
      false_iff]
    exact fun h' => h ⟨h'.1, multiline_iff.2 h'.2⟩

/-- A list keeps its layout when icons are added, and more of them go behind a comma. -/
theorem layout_write (list indent : Text) :
    layout ((layout list indent).write icons) indent =
      { layout list indent with
        front := (layout list indent).front ++ (layout list indent).items icons ++
          ',' :: (layout list indent).gap } := by
  have hblank := isBlank_trailing list
  have hlines := multiline_write hne hid list indent
  by_cases hb : isBlank (trimEnd list)
  · have hl : layout list indent = ⟨[' '], [' '], [], [' ']⟩ := if_pos hb
    rw [hl] at hlines ⊢
    have hline := mt hlines.1 fun h => h.1 hb
    rw [Layout.write] at hline ⊢
    rw [layout_items hne hid _ _ rfl, if_neg hline]
  · by_cases hm : multiline list
    · have hline := hlines.2 ⟨hb, hm⟩
      by_cases hc : endsWith ',' (trimEnd list)
      · have hl : layout list indent =
            ⟨trimEnd list, [], '\n' :: indent, ',' :: trailing list⟩ := by
          simp only [layout, if_neg hb, if_pos hm, if_pos hc]
        rw [hl, Layout.write] at hline ⊢
        generalize Layout.items _ icons = items at hline ⊢
        have h := layout_comma (trimEnd list ++ items) hblank indent
        rw [List.append_assoc _ [','], List.singleton_append, if_pos hline] at h
        exact h
      · have hl : layout list indent =
            ⟨trimEnd list ++ [','], [], '\n' :: indent, trailing list⟩ := by
          simp only [layout, if_neg hb, if_pos hm, if_neg hc]
        rw [hl, Layout.write] at hline ⊢
        rw [layout_items hne hid _ _ hblank, if_pos hline]
    · have hline := mt hlines.1 fun h => hm h.2
      by_cases hc : endsWith ',' (trimEnd list)
      · have hl : layout list indent =
            ⟨trimEnd list ++ [' '], [' '], [], ',' :: trailing list⟩ := by
          simp only [layout, if_neg hb, if_neg hm, if_pos hc]
        rw [hl, Layout.write] at hline ⊢
        generalize Layout.items _ icons = items at hline ⊢
        have h := layout_comma (trimEnd list ++ [' '] ++ items) hblank indent
        rw [List.append_assoc _ [','], List.singleton_append, if_neg hline,
          List.append_assoc _ [',']] at h
        exact h
      · have hl : layout list indent =
            ⟨trimEnd list ++ [',', ' '], [' '], [], trailing list⟩ := by
          simp only [layout, if_neg hb, if_neg hm, if_neg hc]
        rw [hl, Layout.write] at hline ⊢
        rw [layout_items hne hid _ _ hblank, if_neg hline]

end

/-! ## The indentation of a list -/

/-- A list whose last line that is not blank begins with an indentation has that indentation. -/
theorem entryIndent_of_lastEntry {front indent v t : Text} {c : Char}
    (hf : ∃ u, front = u ++ ['\n']) (hi : indent.all isIndent) (hc : isSpace c = false)
    (hv : '\n' ∉ v) (ht : isBlank t) : entryIndent (front ++ (indent ++ c :: v ++ t)) = indent := by
  have hindent : ∀ d ∈ indent, isIndent d = true := List.all_eq_true.1 hi
  have hline : '\n' ∉ indent ++ c :: v := by
    simp only [List.mem_append, List.mem_cons, not_or]
    refine ⟨fun h => absurd (hindent _ h) (by decide), ?_, hv⟩
    rintro rfl
    cases hc
  obtain ⟨line, rest, hchunks, w, rfl⟩ :=
    lineChunks_of_prefix (t := indent ++ c :: v ++ t) (by simp) hline (List.prefix_append _ _)
  have hrest : isBlank rest.flatten := by
    have hflat := flatten_lineChunks (indent ++ c :: v ++ t)
    rw [hchunks, List.flatten_cons, List.append_assoc] at hflat
    rw [← List.append_cancel_left hflat, isBlank, List.all_append, Bool.and_eq_true] at ht
    exact ht.2
  have hblank : ∀ l ∈ (rest.map chomp).reverse, ¬ (!isBlank l) = true := by
    intro l hl
    simp [isBlank_of_mem_chomp hrest (List.mem_reverse.1 hl)]
  obtain ⟨y, hy⟩ : indent ++ [c] <+: chomp (indent ++ c :: v ++ w) :=
    prefix_chomp hc ⟨v ++ w, by simp⟩
  generalize hchomp : chomp (indent ++ c :: v ++ w) = line at *
  subst hy
  have hkept : isBlank (indent ++ [c] ++ y) = false := by simp [isBlank, hc]
  have hstop : Stops isIndent (c :: y) := stops_cons.2 (Bool.eq_false_iff.2 fun h => by
    rw [isSpace_of_isIndent h] at hc
    cases hc)
  have hmulti : multiline (front ++ (indent ++ c :: v ++ t)) = true := by
    obtain ⟨u, rfl⟩ := hf
    simp [multiline]
  have hfind : (lines (front ++ (indent ++ c :: v ++ t))).reverse.find? (fun l => !isBlank l) =
      some (indent ++ [c] ++ y) := by
    rw [lines, lineChunks_append (lastLine_eq_nil_iff.2 (.inr hf)), hchunks, List.map_append,
      List.map_cons, hchomp, List.reverse_append, List.reverse_cons, List.append_assoc,
      List.find?_append, List.find?_eq_none.2 hblank, Option.none_or, List.singleton_append,
      List.find?_cons_of_pos (by rw [hkept]; rfl)]
  rw [entryIndent, if_pos hmulti, hfind]
  show (indent ++ [c] ++ y).takeWhile isIndent = indent
  rw [List.append_assoc]
  exact (takeWhile_append_of_stops hindent hstop).1

/-- A list of several lines keeps its indentation when icons are added. -/
theorem entryIndent_extended {list indent : Text} (hi : indent.all isIndent) {icons : List Text}
    (hne : icons ≠ []) (hid : ∀ icon ∈ icons, Identifier icon)
    (hm : multiline (extended list indent icons)) :
    entryIndent (extended list indent icons) = indent := by
  rw [extended_eq_write list indent hne] at hm ⊢
  obtain ⟨hb, hlist⟩ := (multiline_write hne hid list indent).1 hm
  obtain ⟨front, comma, -, hcomma, hl⟩ := layout_of_multiline hb hlist indent
  obtain ⟨q, icon, hicon, hq⟩ := (layout list indent).exists_lastItem hne
  obtain ⟨c, u, rfl, hc⟩ := (hid icon hicon).solid.first
  have hline := (hid _ hicon).solid.oneLine
  have hwrite : (layout list indent).write icons =
      front ++ q ++ ['\n'] ++ (indent ++ c :: (u ++ comma) ++ trailing list) := by
    rw [Layout.write, hq, hl]
    simp only [List.append_assoc, List.cons_append, List.nil_append]
  have hv : '\n' ∉ u ++ comma := by
    simp only [List.mem_append, not_or]
    refine ⟨fun h => hline (List.mem_cons_of_mem c h), ?_⟩
    rcases hcomma with rfl | rfl <;> decide
  rw [hwrite, entryIndent_of_lastEntry ⟨_, rfl⟩ hi hc hv (isBlank_trailing list)]

/-! ## Adding icons in two steps -/

/-- The indentation matters to a list of several lines only. -/
theorem layout_congr {list indent indent' : Text} (h : multiline list → indent = indent') :
    layout list indent = layout list indent' := by
  by_cases hm : multiline list
  · rw [h hm]
  · simp only [layout, if_neg hm]

/-- What stands in front of icons binds what the list bound. -/
theorem namesOf_front (list indent t : Text) :
    namesOf ((layout list indent).front ++ t) = namesOf list ++ namesOf t := by
  have hlist : namesOf list = namesOf (trimEnd list) := by
    conv => lhs; rw [← trimEnd_append_trailing list]
    exact namesOf_append_blank (isBlank_trailing list) _
  have hcomma : endsWith ',' (trimEnd list) → ∀ gap, isBlank gap →
      namesOf (trimEnd list ++ gap ++ t) = namesOf list ++ namesOf t := by
    intro hc gap hg
    obtain ⟨p, hp⟩ : ∃ p, trimEnd list = p ++ [','] := by
      rcases List.eq_nil_or_concat (trimEnd list) with he | ⟨p, c, hp⟩
      · rw [he] at hc
        cases hc
      · rw [List.concat_eq_append] at hp
        rw [hp, endsWith_concat, beq_iff_eq] at hc
        exact ⟨p, by rw [hp, hc]⟩
    have hends : namesOf (p ++ [',']) = namesOf p := by
      rw [namesOf_append]
      exact List.append_nil _
    rw [hlist, hp, hends, List.append_assoc, List.append_assoc, List.singleton_append,
      namesOf_append, namesOf_blank_append hg]
  have hnone : ∀ gap, isBlank gap →
      namesOf (trimEnd list ++ (',' :: gap) ++ t) = namesOf list ++ namesOf t := by
    intro gap hg
    rw [hlist, List.append_assoc, List.cons_append, namesOf_append, namesOf_blank_append hg]
  by_cases hb : isBlank (trimEnd list)
  · have hl : layout list indent = ⟨[' '], [' '], [], [' ']⟩ := if_pos hb
    rw [hl, hlist, namesOf_blank hb]
    exact namesOf_blank_append rfl t
  · simp only [layout, if_neg hb]
    split
    · split
      · rename_i hc
        simpa using hcomma hc [] rfl
      · exact hnone [] rfl
    · split
      · rename_i hc
        exact hcomma hc [' '] rfl
      · exact hnone [' '] rfl

/-- What stands behind icons binds nothing. -/
theorem namesOf_back (list indent t : Text) :
    namesOf (t ++ (layout list indent).back) = namesOf t := by
  have hblank := isBlank_trailing list
  have hcomma : namesOf (t ++ ',' :: trailing list) = namesOf t := by
    rw [namesOf_append, namesOf_blank hblank, List.append_nil]
  simp only [layout]
  split
  · exact namesOf_append_blank rfl t
  · split
    · split
      · exact hcomma
      · exact namesOf_append_blank hblank t
    · split
      · exact hcomma
      · exact namesOf_append_blank hblank t

theorem isBlank_layout (list : Text) {indent : Text} (hi : isBlank indent) :
    isBlank (layout list indent).gap ∧ isBlank (layout list indent).lead := by
  have hlead : isBlank ('\n' :: indent) := by
    rw [isBlank, List.all_cons, Bool.and_eq_true]
    exact ⟨rfl, hi⟩
  by_cases h : isBlank (trimEnd list) ∨ ¬ multiline list
  · obtain ⟨hg, hl, -, -⟩ := layout_of_line h indent
    rw [hg, hl]
    exact ⟨rfl, rfl⟩
  · obtain ⟨hb, hm⟩ := not_or.1 h
    obtain ⟨front, comma, -, -, hl⟩ := layout_of_multiline hb (Decidable.not_not.1 hm) indent
    rw [hl]
    exact ⟨rfl, hlead⟩

section
variable {xs ys : List Text} (hx : xs ≠ []) (hy : ys ≠ []) (hxs : ∀ x ∈ xs, Identifier x)
include hx hxs

include hy in
/-- What is added in two steps is laid out as if it had been added in one. -/
theorem extended_extended (list : Text) {indent indent' : Text}
    (h : multiline (extended list indent xs) → indent' = indent) :
    extended (extended list indent xs) indent' ys = extended list indent (xs ++ ys) := by
  have hitems : (layout list indent).items (xs ++ ys) = (layout list indent).items xs ++
      ',' :: (layout list indent).gap ++ (layout list indent).items ys := by
    rw [Layout.items, List.map_append, joinWith_append (by simpa using hx) (by simpa using hy)]
    rfl
  rw [extended_eq_write _ _ hy, layout_congr h, extended_eq_write list indent hx,
    layout_write hx hxs, extended_eq_write list indent (by simp [hx])]
  simp only [Layout.write, hitems]
  simp only [Layout.items, List.append_assoc]

/-- The list binds what it bound, and the icons that were added. -/
theorem namesOf_extended (list : Text) {indent : Text} (hi : isBlank indent) :
    namesOf (extended list indent xs) = namesOf list ++ xs := by
  obtain ⟨hg, hl⟩ := isBlank_layout list hi
  rw [extended_eq_write list indent hx, Layout.write, List.append_assoc, namesOf_front,
    namesOf_back, Layout.items, namesOf_joinWith hg, namesOf_items hl hxs]

end

/-! ## The list, found again -/

/-- A list that gives way to another one without a closing brace is found again in its place. -/
theorem findAnchor_replace {s : AnchorSettings} (hl : '\x7b' ∉ s.iconLibrary) {t names : Text}
    {a : Anchor} (h : findAnchor s t = some a) (hn : '\x7d' ∉ names) :
    findAnchor s (a.replace names) =
      some { a with span := names, indent := entryIndent names } := by
  obtain ⟨front, head, names₀, tail, rest, ⟨hh, ht, hn₀⟩, rfl, hfirst, rfl⟩ :=
    findAnchor_eq_some_iff.1 h
  refine findAnchor_eq_some_iff.2
    ⟨front, head, names, tail, rest, ⟨hh, ht, hn⟩, ?_, fun p q hpq hq => ?_, rfl⟩
  · simp only [Anchor.replace, List.append_assoc]
  · refine Option.not_isSome_iff_eq_none.1 fun hsome => ?_
    obtain ⟨w, hw, _⟩ := hh.eq_concat
    have hbrace : ∃ p, q ++ head = p ++ ['\x7b'] := ⟨q ++ w, by rw [hw, List.append_assoc]⟩
    rw [List.append_assoc, ← List.append_assoc q, ← List.append_assoc] at hsome
    have hold : (nameList? _ (q ++ head ++ names₀ ++ (tail ++ rest))).isSome :=
      isSome_nameList?_transfer hl hbrace hn₀ ht hsome
    simp only [List.append_assoc] at hold hfirst
    rw [hfirst p q hpq hq] at hold
    cases hold

theorem identifier_fresh {seen icons : List Text} (h : ∀ icon ∈ icons, Identifier icon) :
    ∀ name ∈ fresh seen icons, Identifier name := by
  intro name hm
  obtain ⟨icon, hicon, rfl⟩ := mem_fresh hm
  rw [trim_identifier (h icon hicon)]
  exact h icon hicon

section
variable {a : Anchor} {xs : List Text} (hindent : a.indent = entryIndent a.span)
  (hxs : ∀ x ∈ xs, Identifier x)
include hindent hxs

/-- What is merged in two steps is merged as if it had come in one. -/
theorem merged_merged (ys : List Text) :
    merged { a with span := merged a xs, indent := entryIndent (merged a xs) } ys =
      merged a (xs ++ ys) := by
  have hall : a.indent.all isIndent := hindent ▸ entryIndent_all_isIndent a.span
  have hblank : isBlank a.indent := hindent ▸ isBlank_entryIndent a.span
  have hfresh := fresh_append (namesOf a.span) xs ys
  by_cases hnew : fresh (namesOf a.span) xs = []
  · have hsame : merged a xs = a.span := if_pos (by rw [hnew]; rfl)
    rw [hnew] at hfresh
    rw [hsame, ← hindent, merged, merged, hfresh]
    rfl
  · have hid : ∀ name ∈ fresh (namesOf a.span) xs, Identifier name := identifier_fresh hxs
    have hmerged : merged a xs = extended a.span a.indent (fresh (namesOf a.span) xs) :=
      if_neg (by simpa using hnew)
    have hseen : fresh (fresh (namesOf a.span) xs ++ namesOf a.span) ys =
        fresh (namesOf (merged a xs)) ys := by
      rw [hmerged, namesOf_extended hnew hid a.span hblank]
      exact fresh_congr (fun n => by rw [List.mem_append, List.mem_append, or_comm]) ys
    have hboth : merged a (xs ++ ys) = extended a.span a.indent (fresh (namesOf a.span) (xs ++ ys)) :=
      if_neg (by simp [hfresh, hnew])
    by_cases hmore : fresh (namesOf (merged a xs)) ys = []
    · rw [hboth, hfresh, hseen, hmore, List.append_nil, ← hmerged]
      exact if_pos (by rw [hmore]; rfl)
    · rw [hboth, hfresh, hseen]
      refine (if_neg (by simpa using hmore)).trans ?_
      rw [← extended_extended hnew hmore hid a.span
        (fun hm => entryIndent_extended hall hnew hid hm), ← hmerged]

end

/-- The list is found again after icons were merged into it. -/
theorem findAnchor_merged {s : AnchorSettings} (hl : '\x7b' ∉ s.iconLibrary) {t : Text}
    {a : Anchor} {xs : List Text} (hxs : ∀ x ∈ xs, Identifier x) (h : findAnchor s t = some a) :
    findAnchor s (a.replace (merged a xs)) =
      some { a with span := merged a xs, indent := entryIndent (merged a xs) } := by
  refine findAnchor_replace hl h ?_
  refine notMem_merged (isBlank_indent_of_findAnchor h) (by unfold IsGlue; decide)
    (fun x hx hm => absurd ((hxs x hx).rest _ hm) (by decide)) ?_
  obtain ⟨_, _, _, _, _, ⟨_, _, hn⟩, _, _, rfl⟩ := findAnchor_eq_some_iff.1 h
  exact hn

/-- More icons are merged behind those that were, as if they had come with them. -/
theorem exists_resumed {s : AnchorSettings} (hl : '\x7b' ∉ s.iconLibrary) {t : Text} {a : Anchor}
    {xs : List Text} (hxs : ∀ x ∈ xs, Identifier x) (h : findAnchor s t = some a) :
    ∃ a', findAnchor s (splice a xs).text = some a' ∧
      ∀ ys, (splice a' ys).text = (splice a (xs ++ ys)).text := by
  refine ⟨_, (congrArg (findAnchor s) (splice_text a xs)).trans (findAnchor_merged hl hxs h),
    fun ys => ?_⟩
  rw [splice_text, splice_text, merged_merged (indent_of_findAnchor h) hxs]
  rfl

end Graft.Splice.Icons
