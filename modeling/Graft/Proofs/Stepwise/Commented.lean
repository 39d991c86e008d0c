import Graft.Proofs.Stepwise.Merging
import Graft.Proofs.Text.Comment

/-!
# Merging icons into a list with comments

A merge reads and extends a list as if it had no comments.  Where a comment neither hides nor shows
one of the icons, the list binds, without its comments, what it bound and the icons that were
missing, exactly if no comment takes in what is added.

* `uncommented_extended`: a list that ends in code is extended as it is without its comments;
* `boundNames_extended_iff`: icons that are added to a list are bound exactly where it is open;
* `apply_legible`: when the list that a merge leaves binds what it should.
-/

namespace Graft.Splice.Icons

open Text

/-- The names that a list binds without its comments. -/
def boundNames (list : Text) : List Text := namesOf (uncommented list)

/-! ## Lists that end in code -/

section
variable {indent : Text} {icons : List Text}

/-- What is added to a list depends on its last character, on the blanks behind that, and on whether
it has several lines. -/
theorem exists_added {c : Char} (hc : isSpace c = false) {t : Text} (ht : isBlank t)
    (hne : icons ≠ []) (several : Bool) :
    ∃ added, ∀ u, multiline (u ++ [c] ++ t) = several →
      extended (u ++ [c] ++ t) indent icons = u ++ [c] ++ added := by
  obtain ⟨l, hl⟩ : ∃ l : Layout, ∀ u, multiline (u ++ [c] ++ t) = several →
      layout (u ++ [c] ++ t) indent = { l with front := u ++ [c] ++ l.front } := by
    refine ⟨if several then
        if c == ',' then ⟨[], [], '\n' :: indent, ',' :: t⟩ else ⟨[','], [], '\n' :: indent, t⟩
      else if c == ',' then ⟨[' '], [' '], [], ',' :: t⟩ else ⟨[',', ' '], [' '], [], t⟩,
      fun u hm => ?_⟩
    rw [layout_append ⟨u, c, rfl, hc⟩ ht, hm, endsWith_concat]
    cases several <;> cases c == ',' <;> simp
  refine ⟨l.write icons, fun u hm => ?_⟩
  rw [extended_eq_write _ _ hne, hl u hm]
  simp only [Layout.write, Layout.items, List.append_assoc]

theorem extended_of_isBlank {list : Text} (h : isBlank list) :
    extended list indent icons = ' ' :: joinWith ", ".toList icons ++ [' '] :=
  if_pos (isBlank_trimEnd h)

variable (hi : isBlank indent) (hne : icons ≠ []) (hid : ∀ icon ∈ icons, Identifier icon)
include hi hne hid

/-- What is added to a list has no slash. -/
theorem slash_notMem_added (list : Text) :
    ∃ added, extended list indent icons = trimEnd list ++ added ∧ '/' ∉ added := by
  obtain ⟨added, he, hb⟩ := extended_eq list hi hne
  refine ⟨added, he, fun hm => ?_⟩
  rcases hb.mem hm with hg | ⟨icon, hicon, hc⟩
  · exact absurd hg (by unfold IsGlue; decide)
  · exact absurd ((hid icon hicon).rest _ hc) (by decide)

/-- A list that ends in code is extended as it is without its comments. -/
theorem uncommented_extended {list : Text} (h : endsInComment (trimEnd list) = false) :
    uncommented (extended list indent icons) = extended (uncommented list) indent icons := by
  obtain ⟨added, he, hslash⟩ := slash_notMem_added hi hne hid list
  by_cases hb : isBlank list
  · have hnil : trimEnd list = [] := trimEnd_eq_nil_of_isBlank (isBlank_trimEnd hb)
    rw [hnil, List.nil_append] at he
    rw [extended_of_isBlank (isBlank_uncommented hb), ← extended_of_isBlank hb, he,
      uncommented_of_slash_notMem hslash]
  · obtain ⟨u, c, hu, hc⟩ := exists_trimEnd_last (Bool.eq_false_iff.2 hb)
    have hblank := isBlank_trailing list
    have hcut := trimEnd_append_trailing list
    rw [hu] at h he hcut
    obtain ⟨v, hv⟩ := exists_uncommented_concat hc h
    have hlist : uncommented list = v ++ [c] ++ trailing list := by
      rw [← hv, ← uncommented_append_of_code h (notMem_of_isBlank hblank rfl), hcut]
    have hm : multiline (v ++ [c] ++ trailing list) = multiline list := by
      rw [← hlist, Bool.eq_iff_iff, multiline_iff, multiline_iff, newline_mem_uncommented_iff]
    obtain ⟨more, hmore⟩ := exists_added hc hblank hne (multiline list)
    have hadded := hmore u (congrArg multiline hcut)
    rw [hcut, he] at hadded
    rw [he, uncommented_append_of_code h hslash, hv, hlist, hmore v hm,
      List.append_cancel_left hadded]

/-! ## Lists that end in a comment -/

omit hi hne hid in
/-- Names without a comma between them are one. -/
theorem length_namesOf_lt {c d : Char} (hc : isSpace c = false) (hc' : ¬ c = ',') {gap lead : Text}
    (hgap : isBlank gap) (hlead : isBlank lead) (hd : isSpace d = false) (hd' : d ≠ ',')
    (u v : Text) :
    (namesOf (u ++ c :: gap ++ (lead ++ d :: v))).length <
      (namesOf (u ++ c :: gap)).length + (namesOf (lead ++ d :: v)).length := by
  obtain ⟨w, names, hw, hnames⟩ := exists_namesOf_append u
  obtain ⟨w', names', hnames'⟩ := exists_append_namesOf v
  have hleft : ',' ∉ w ++ c :: gap := by
    simp [hw, Ne.symm hc', comma_notMem hgap]
  have hright : ',' ∉ lead ++ [d] := by
    simp [comma_notMem hlead, Ne.symm hd']
  have hfirst : (firstWord? (w ++ c :: gap)).isSome := by
    refine firstWord?_isSome (Bool.eq_false_iff.2 fun hb => notMem_of_isBlank hb hc (by simp))
  have hsecond : (firstWord? (lead ++ [d] ++ w')).isSome := by
    refine firstWord?_isSome (Bool.eq_false_iff.2 fun hb => notMem_of_isBlank hb hd (by simp))
  have hcut : lead ++ d :: v = (lead ++ [d]) ++ v := by simp
  have hboth : namesOf (u ++ c :: gap ++ (lead ++ d :: v)) =
      names ++ ((firstWord? (w ++ c :: gap ++ (lead ++ [d]) ++ w')).toList ++ names') := by
    rw [hcut, List.append_assoc, hnames, ← List.append_assoc, ← List.append_assoc, hnames']
    exact fun hm => (List.mem_append.1 hm).elim hleft hright
  have hone : (firstWord? (w ++ c :: gap ++ (lead ++ [d]) ++ w')).toList.length ≤ 1 := by
    cases firstWord? (w ++ c :: gap ++ (lead ++ [d]) ++ w') <;> simp
  rw [hboth, hnames, namesOf_of_notMem hleft, hcut, hnames' _ hright]
  obtain ⟨x, hx⟩ := Option.isSome_iff_exists.1 hfirst
  obtain ⟨y, hy⟩ := Option.isSome_iff_exists.1 hsecond
  simp only [hx, hy, Option.toList_some, List.length_append, List.length_singleton]
  omega

omit hi hne hid in
/-- A list without code, or whose code ends with a comma, binds what it does whatever follows. -/
theorem namesOf_uncommented_append {list : Text}
    (h : codeOf list = [] ∨ endsWith ',' (codeOf list)) (t : Text) :
    namesOf (uncommented list ++ t) = boundNames list ++ namesOf t := by
  rcases h with hnone | hcomma
  · have hblank := isBlank_uncommented_of_codeOf hnone
    rw [boundNames, namesOf_blank_append hblank, namesOf_blank hblank, List.nil_append]
  · have hne : codeOf list ≠ [] := by
      rintro hnil
      rw [hnil] at hcomma
      cases hcomma
    obtain ⟨u, c, gap, -, hblank, hcut, hends⟩ := exists_codeOf_last hne
    rw [hends, beq_iff_eq] at hcomma
    have hsplit : ∀ s, namesOf (uncommented list ++ s) = namesOf u ++ namesOf s := by
      intro s
      rw [hcut, hcomma, List.append_assoc, List.cons_append, namesOf_append,
        namesOf_blank_append hblank]
    have hnone : namesOf [] = [] := rfl
    have hbound := hsplit []
    rw [List.append_nil, hnone, List.append_nil] at hbound
    rw [hsplit, boundNames, hbound]

/-- Icons on lines of their own are out of the comment that a list ends in, but for the comma in
front of them. -/
theorem uncommented_extended_lines {list : Text} (h : endsInComment (trimEnd list))
    (hm : multiline list) :
    uncommented (extended list indent icons) = uncommented (trimEnd list) ++
      ((layout list indent).items icons ++ (layout list indent).back) := by
  have hkept : ¬ isBlank (trimEnd list) := by
    intro hb
    rw [trimEnd_eq_nil_of_isBlank hb] at h
    cases h
  obtain ⟨front, comma, hfront, -, hl⟩ := layout_of_multiline hkept hm indent
  obtain ⟨added, he, hslash⟩ := slash_notMem_added hi hne hid list
  rw [extended_eq_write _ _ hne] at he ⊢
  obtain ⟨r, hr⟩ : ∃ r, (layout list indent).items icons = '\n' :: r := by
    rw [hl]
    cases icons with
    | nil => exact absurd rfl hne
    | cons x xs =>
      cases xs with
      | nil => exact ⟨_, rfl⟩
      | cons y ys => exact ⟨_, rfl⟩
  have hplain : '/' ∉ r ++ (layout list indent).back := by
    intro hm
    have hmem : '/' ∈ (layout list indent).items icons ++ (layout list indent).back := by
      rw [hr]
      exact List.mem_cons_of_mem _ hm
    have hsame : (layout list indent).front = front := by rw [hl]
    rw [Layout.write, hsame, List.append_assoc] at he
    refine hslash ?_
    rcases hfront with rfl | rfl
    · rwa [← List.append_cancel_left he]
    · rw [List.append_assoc] at he
      rw [← List.append_cancel_left he]
      exact List.mem_append_right _ hmem
  have hcomment : uncommented front = uncommented (trimEnd list) := by
    rcases hfront with rfl | rfl
    · rfl
    · exact uncommented_append_of_comment h (by decide)
  rw [Layout.write, hr, List.append_assoc, List.cons_append, uncommented_newline,
    uncommented_of_slash_notMem hplain, hl, hcomment]

omit hi hne hid in
theorem boundNames_trimEnd (list : Text) : boundNames (trimEnd list) = boundNames list := by
  obtain ⟨gap, hgap, hu⟩ := exists_uncommented_append_blank (trimEnd list) (isBlank_trailing list)
  rw [trimEnd_append_trailing] at hu
  rw [boundNames, boundNames, hu, namesOf_append_blank hgap]

omit hne in
theorem namesOf_items_back (list : Text) :
    namesOf ((layout list indent).items icons ++ (layout list indent).back) = icons := by
  obtain ⟨hg, hlead⟩ := isBlank_layout list hi
  rw [namesOf_back, Layout.items, namesOf_joinWith hg, namesOf_items hlead hid]

/-- The first icon that is added stands behind blanks. -/
theorem exists_firstItem (list : Text) :
    ∃ lead d v, isBlank lead ∧ isSpace d = false ∧ d ≠ ',' ∧
      (layout list indent).items icons ++ (layout list indent).back = lead ++ d :: v := by
  obtain ⟨-, hlead⟩ := isBlank_layout list hi
  cases icons with
  | nil => exact absurd rfl hne
  | cons x xs =>
    obtain ⟨d, v, rfl, hd⟩ := (hid x List.mem_cons_self).solid.first
    have hcomma : d ≠ ',' := by
      rintro rfl
      exact absurd ((hid _ List.mem_cons_self).rest _ List.mem_cons_self) (by decide)
    refine ⟨(layout list indent).lead, d, ?_, hlead, hd, hcomma, ?_⟩
    · exact v ++ (((layout list indent).items ((d :: v) :: xs)).drop
        ((layout list indent).lead ++ d :: v).length ++ (layout list indent).back)
    · cases xs with
      | nil => simp [Layout.items, joinWith]
      | cons y ys => simp [Layout.items, joinWith]

/-- What is added to a list does not come into a comment: the list ends in code, or it has several
lines and no comma has to go behind its code. -/
def Open (list : Text) : Prop :=
  endsInComment (trimEnd list) = false ∨
    multiline list ∧ (codeOf list = [] ∨ endsWith ',' (codeOf list))

instance : DecidablePred Open := fun _ => inferInstanceAs (Decidable (_ ∨ _))

/-- A list to which icons are added where it is open binds them too. -/
theorem boundNames_extended {list : Text} (h : Open list) :
    boundNames (extended list indent icons) = boundNames list ++ icons := by
  by_cases hc : endsInComment (trimEnd list)
  · obtain ⟨hm, hcode⟩ := h.resolve_left (by simp [hc])
    rw [← codeOf_trimEnd] at hcode
    rw [boundNames, uncommented_extended_lines hi hne hid hc hm, namesOf_uncommented_append hcode,
      namesOf_items_back hi hid, boundNames_trimEnd]
  · rw [boundNames, uncommented_extended hi hne hid (Bool.eq_false_iff.2 hc)]
    exact namesOf_extended hne hid (uncommented list) hi

/-- On one line, all that is added comes into the comment that a list ends in. -/
theorem boundNames_extended_line {list : Text} (h : endsInComment (trimEnd list))
    (hm : ¬ multiline list) : boundNames (extended list indent icons) = boundNames list := by
  obtain ⟨added, he, -⟩ := slash_notMem_added hi hne hid list
  have hline : '\n' ∉ extended list indent icons := by
    rw [extended_eq_write _ _ hne, ← multiline_iff, multiline_write hne hid]
    exact fun hw => hm hw.2
  rw [he] at hline
  rw [boundNames, he, uncommented_append_of_comment h (mt (List.mem_append_right _) hline)]
  exact boundNames_trimEnd list

/-- Icons that are added to a list are bound exactly where it is open: elsewhere all of them come
into a comment, or the first of them has no comma in front of it. -/
theorem boundNames_extended_iff {list : Text} :
    boundNames (extended list indent icons) = boundNames list ++ icons ↔ Open list := by
  refine ⟨fun h => Decidable.byContradiction fun hopen => ?_, boundNames_extended hi hne hid⟩
  obtain ⟨hc, hclosed⟩ := not_or.1 hopen
  have hc : endsInComment (trimEnd list) := Bool.of_not_eq_false hc
  by_cases hm : multiline list
  · obtain ⟨hcode, hcomma⟩ := not_or.1 fun hcode => hclosed ⟨hm, hcode⟩
    rw [← codeOf_trimEnd] at hcode hcomma
    obtain ⟨u, c, gap, hc', hgap, hu, hends⟩ := exists_codeOf_last hcode
    rw [hends, beq_iff_eq] at hcomma
    obtain ⟨lead, d, v, hlead, hd, hd', hitems⟩ := exists_firstItem hi hne hid list
    have hlt := length_namesOf_lt hc' hcomma hgap hlead hd hd' u v
    rw [← hu, ← hitems, ← uncommented_extended_lines hi hne hid hc hm, namesOf_items_back hi hid,
      ← boundNames, ← boundNames, boundNames_trimEnd, h, List.length_append] at hlt
    exact absurd hlt (Nat.lt_irrefl _)
  · rw [boundNames_extended_line hi hne hid hc hm] at h
    exact hne (List.self_eq_append_right.1 h)

end

/-! ## What a merge leaves -/

/-- The comments of a list neither hide one of the icons nor show one. -/
def Legible (list : Text) (icons : List Text) : Prop :=
  ∀ icon ∈ icons, icon ∈ namesOf list ↔ icon ∈ boundNames list

instance (list : Text) (icons : List Text) : Decidable (Legible list icons) :=
  inferInstanceAs (Decidable (∀ icon ∈ icons, icon ∈ namesOf list ↔ icon ∈ boundNames list))

section
variable {list : Text} {icons : List Text} (h : Legible list icons)
include h

theorem Legible.missing_eq : missing (namesOf list) icons = missing (boundNames list) icons := by
  rw [missing, missing]
  congr 1
  exact List.filter_congr fun icon hicon => by simp [h icon hicon]

theorem Legible.subset_iff : icons ⊆ namesOf list ↔ icons ⊆ boundNames list := by
  rw [← missing_eq_nil_iff, ← missing_eq_nil_iff, h.missing_eq]

end

/-- The icons that are missing are bound exactly if there are none, or the list is open to them. -/
theorem boundNames_merged_iff {a : Anchor} {xs : List Text} (hxs : ∀ x ∈ xs, Identifier x)
    (hindent : isBlank a.indent) (h : Legible a.span xs) :
    boundNames (merged a xs) = boundNames a.span ++ missing (boundNames a.span) xs ↔
      xs ⊆ boundNames a.span ∨ Open a.span := by
  rw [← h.missing_eq, ← h.subset_iff]
  by_cases hsub : xs ⊆ namesOf a.span
  · rw [merged_of_subset hxs hsub, missing_eq_nil_iff.2 hsub, List.append_nil]
    exact iff_of_true rfl (.inl hsub)
  · have hnew := mt missing_eq_nil_iff.1 hsub
    rw [merged, fresh_eq_missing hxs, if_neg (by simpa using hnew), or_iff_right hsub]
    exact boundNames_extended_iff hindent hnew fun x hx => hxs x (mem_missing_iff.1 hx).1

/-- **Comments are respected exactly where a list is open.**  As long as no comment hides or shows
one of the icons, the list that a merge leaves binds, without its comments, what it bound and the
icons that were missing, each once, if and only if none were missing or what is added does not come
into a comment. -/
theorem apply_legible {s : AnchorSettings} {st : Strategy} (hs : strategy s = .ok st) {t : Text}
    {a : Anchor} (ha : st.findAnchor t = some a) {xs : List Text}
    (hxs : ∀ x ∈ xs, ∃ entry, Metadata.icon? entry = some x) (h : Legible a.span xs) :
    ∃ list, (st.apply t xs).text = a.replace list ∧
      (boundNames list = boundNames a.span ++ missing (boundNames a.span) xs ↔
        xs ⊆ boundNames a.span ∨ Open a.span) ∧
      ('\x7b' ∉ s.iconLibrary → st.findAnchor (a.replace list) =
        some { a with span := list, indent := entryIndent list }) := by
  have hid := identifier_of_icon hxs
  refine ⟨merged a xs, by rw [apply_eq hs ha hid], ?_⟩
  obtain ⟨-, rfl⟩ := strategy_eq_ok hs
  exact ⟨boundNames_merged_iff hid (isBlank_indent_of_findAnchor ha) h,
    fun hl => findAnchor_merged hl hid ha⟩

/-- Comments behind names, on a line of their own, and behind the last comma, with words in them. -/
theorem apply_legible_lines :
    let st : Strategy := ⟨.icon, "icons", findAnchor {}, splice⟩
    let a : Anchor := ⟨.iconImport, "import \x7b".toList,
      "\n  Film, // movie, Moon\n  // more, soon\n  Clock as C, // time\n".toList,
      "\x7d from 'lucide-react';\n".toList, "  ".toList⟩
    let xs := ["Star".toList, "Film".toList, "Home".toList]
    strategy {} = .ok st ∧ st.findAnchor a.text = some a ∧
      (∀ x ∈ xs, ∃ entry, Metadata.icon? entry = some x) ∧ Legible a.span xs ∧ Open a.span ∧
      ∃ list, (st.apply a.text xs).text = a.replace list ∧
        boundNames list = ["Film".toList, "Clock".toList, "Star".toList, "Home".toList] ∧
        st.findAnchor (a.replace list) =
          some { a with span := list, indent := entryIndent list } := by
  intro st a xs
  have hs : strategy {} = .ok st := rfl
  have ha : st.findAnchor a.text = some a := by decide +kernel
  have hxs : ∀ x ∈ xs, ∃ entry, Metadata.icon? entry = some x := by
    have hicon : ∀ x ∈ xs, Metadata.icon? ("icon: ".toList ++ x) = some x := by decide +kernel
    exact fun x hx => ⟨_, hicon x hx⟩
  have h : Legible a.span xs := by decide +kernel
  have hopen : Open a.span := by decide +kernel
  obtain ⟨list, htext, hnames, hfound⟩ := apply_legible hs ha hxs h
  have hbound : boundNames a.span ++ missing (boundNames a.span) xs =
      ["Film".toList, "Clock".toList, "Star".toList, "Home".toList] := by
    decide +kernel
  exact ⟨hs, ha, hxs, h, hopen, list, htext, (hnames.2 (.inr hopen)).trans hbound,
    hfound (by decide +kernel)⟩

/-- A comma comes into the comment behind the last name, so that the first new name has none in
front of it; and a name behind a comment is not seen, and is bound a second time. -/
theorem apply_misled :
    let st : Strategy := ⟨.icon, "icons", findAnchor {}, splice⟩
    let before := "import \x7b".toList
    let after := "\x7d from 'lucide-react';\n".toList
    let names := ["Film".toList, "Clock".toList]
    let list₁ := "\n  Film,\n  Clock // time\n".toList
    let list₂ := "\n  Film, // movie\n  Clock,\n".toList
    let merged₁ := "\n  Film,\n  Clock // time,\n  Star\n".toList
    let merged₂ := "\n  Film, // movie\n  Clock,\n  Clock,\n".toList
    strategy {} = .ok st ∧
      ((st.apply (before ++ list₁ ++ after) ["Star".toList]).text = before ++ merged₁ ++ after ∧
        boundNames list₁ = names ∧ boundNames merged₁ = names ∧
        boundNames merged₁ ≠ names ++ missing names ["Star".toList]) ∧
      ((st.apply (before ++ list₂ ++ after) ["Clock".toList]).text = before ++ merged₂ ++ after ∧
        boundNames list₂ = names ∧ boundNames merged₂ = names ++ ["Clock".toList] ∧
        boundNames merged₂ ≠ names ++ missing names ["Clock".toList]) := by
  refine ⟨rfl, ?_⟩
  decide +kernel

end Graft.Splice.Icons
