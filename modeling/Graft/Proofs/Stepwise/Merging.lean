import Graft.Proofs.Batch.Setup
import Graft.Proofs.Stepwise.Icons

/-!
# The law of merging icons

A merge adds the icons that the list does not bind, each once, and a second merge of them changes
nothing.

* `fresh_eq_missing`: what is new to a list is what it does not bind;
* `namesOf_merged`: the list then binds what it bound, and what was new;
* `apply_merged`: what a merge answers, what it leaves, and what a second one answers.
-/

namespace Graft.Splice.Icons

open Text

/-! ## Icons that are missing -/

/-- The icons that are not among some names, each once, in the order in which they come first. -/
def missing (names icons : List Text) : List Text :=
  (icons.filter fun icon => icon ∉ names).eraseDups

theorem mem_missing_iff {names icons : List Text} {icon : Text} :
    icon ∈ missing names icons ↔ icon ∈ icons ∧ icon ∉ names := by
  rw [missing, List.mem_eraseDups, List.mem_filter, decide_eq_true_eq]

theorem missing_eq_nil_iff {names icons : List Text} :
    missing names icons = [] ↔ icons ⊆ names := by
  rw [List.eq_nil_iff_forall_not_mem]
  refine forall_congr' fun icon => ?_
  rw [mem_missing_iff, not_and, Decidable.not_not]

/-- What is new to a list is what it does not bind. -/
theorem fresh_eq_missing {icons : List Text} (h : ∀ icon ∈ icons, Identifier icon)
    (names : List Text) : fresh names icons = missing names icons := by
  induction icons generalizing names with
  | nil => rfl
  | cons icon icons ih =>
    obtain ⟨hicon, hicons⟩ := List.forall_mem_cons.1 h
    have hempty : icon.isEmpty = false := by simpa using hicon.ne_nil
    simp only [fresh, trim_identifier hicon, hempty, Bool.false_or, List.contains_iff_mem]
    by_cases hm : icon ∈ names
    · rw [if_pos hm, ih hicons, missing, missing, List.filter_cons_of_neg (by simpa using hm)]
    · rw [if_neg hm, ih hicons, missing, missing, List.filter_cons_of_pos (by simpa using hm),
        List.eraseDups_cons, List.filter_filter]
      congr 2
      refine List.filter_congr fun x _ => ?_
      rw [Bool.eq_iff_iff]
      simp

/-! ## What a merge leaves -/

theorem identifier_of_icon {xs : List Text}
    (h : ∀ x ∈ xs, ∃ entry, Metadata.icon? entry = some x) : ∀ x ∈ xs, Identifier x := by
  intro x hx
  obtain ⟨_, he⟩ := h x hx
  exact Metadata.icon?_identifier he

section
variable {a : Anchor} {xs : List Text} (hxs : ∀ x ∈ xs, Identifier x)
include hxs

theorem splice_eq : splice a xs =
    ⟨a.replace (merged a xs), (missing (namesOf a.span) xs).length⟩ := by
  simp only [splice, merged, fresh_eq_missing hxs]
  split
  · rename_i hnone
    rw [List.isEmpty_iff.1 hnone]
    rfl
  · rfl

theorem merged_of_subset (h : xs ⊆ namesOf a.span) : merged a xs = a.span := by
  refine if_pos ?_
  rw [fresh_eq_missing hxs, missing_eq_nil_iff.2 h]
  rfl

/-- The list binds what it bound, and the icons that were missing. -/
theorem namesOf_merged (hindent : a.indent = entryIndent a.span) :
    namesOf (merged a xs) = namesOf a.span ++ missing (namesOf a.span) xs := by
  by_cases hnew : missing (namesOf a.span) xs = []
  · rw [merged_of_subset hxs (missing_eq_nil_iff.1 hnew), hnew, List.append_nil]
  · have hblank : isBlank a.indent := hindent ▸ isBlank_entryIndent a.span
    have hid : ∀ name ∈ missing (namesOf a.span) xs, Identifier name := fun name hm =>
      hxs name (mem_missing_iff.1 hm).1
    rw [merged, fresh_eq_missing hxs, if_neg (by simpa using hnew)]
    exact namesOf_extended hnew hid a.span hblank

end

/-- What is left of a text, found at an anchor, by a merge of icons into the list there: `list` is
what has taken the list's place. -/
structure Merged (st : Strategy) (t : Text) (a : Anchor) (xs : List Text) (list : Text) : Prop where
  cut : a.replace a.span = t
  answer : st.apply t xs = ⟨st.name, a.replace list,
    if xs = [] then .empty
    else if missing (namesOf a.span) xs = [] then .nothingNew .iconImport
    else .spliced .iconImport (missing (namesOf a.span) xs).length⟩
  /-- Nothing changes if no icon is missing. -/
  kept : missing (namesOf a.span) xs = [] → list = a.span
  /-- The list is found again in its place. -/
  found : st.findAnchor (a.replace list) = some { a with span := list, indent := entryIndent list }
  names : namesOf list = namesOf a.span ++ missing (namesOf a.span) xs
  /-- A second merge of the icons, or of some of them, changes nothing. -/
  again : ∀ ys, ys ⊆ xs → st.apply (a.replace list) ys =
    ⟨st.name, a.replace list, if ys = [] then .empty else .nothingNew .iconImport⟩

theorem kind_of_findAnchor {s : AnchorSettings} {t : Text} {a : Anchor}
    (h : findAnchor s t = some a) : a.kind = .iconImport := by
  obtain ⟨p, -, rfl⟩ := Option.map_eq_some_iff.1 h
  rfl

/-- What a merge answers, by what is missing. -/
theorem apply_eq {s : AnchorSettings} {st : Strategy} (hs : strategy s = .ok st) {t : Text}
    {a : Anchor} (ha : st.findAnchor t = some a) {xs : List Text}
    (hxs : ∀ x ∈ xs, Identifier x) :
    st.apply t xs = ⟨st.name, a.replace (merged a xs),
      if xs = [] then .empty
      else if missing (namesOf a.span) xs = [] then .nothingNew .iconImport
      else .spliced .iconImport (missing (namesOf a.span) xs).length⟩ := by
  obtain ⟨-, rfl⟩ := strategy_eq_ok hs
  by_cases hne : xs = []
  · subst hne
    have hsame : a.replace (merged a []) = t := text_of_findAnchor ha
    rw [Strategy.apply_nil, hsame, if_pos rfl]
  · rw [Strategy.apply_of_findAnchor_eq_some hne ha, if_neg hne]
    simp only [splice_eq hxs, kind_of_findAnchor ha, List.length_eq_zero_iff]

/-- **The law of merging icons.**  A merge leaves the list in its place, with the names it bound and
the icons that were missing, each once and in the order in which they come first; it answers how
many these are, and nothing new if there are none; and a second merge of the same icons, or of some
of them, finds nothing new. -/
theorem apply_merged {s : AnchorSettings} {st : Strategy} (hs : strategy s = .ok st)
    (hl : '\x7b' ∉ s.iconLibrary) {t : Text} {a : Anchor} (ha : st.findAnchor t = some a)
    {xs : List Text} (hxs : ∀ x ∈ xs, ∃ entry, Metadata.icon? entry = some x) :
    ∃ list, Merged st t a xs list := by
  have hid := identifier_of_icon hxs
  have happly := @apply_eq s st hs
  obtain ⟨-, rfl⟩ := strategy_eq_ok hs
  have hfound := findAnchor_merged hl hid ha
  have hnames := namesOf_merged hid (indent_of_findAnchor ha)
  refine ⟨merged a xs, ?_⟩
  exact
    { cut := text_of_findAnchor ha
      answer := happly ha hid
      kept := fun hnone => merged_of_subset hid (missing_eq_nil_iff.1 hnone)
      found := hfound
      names := hnames
      again := fun ys hys => by
        have hyd : ∀ y ∈ ys, Identifier y := fun y hy => hid y (hys hy)
        have hbound : ys ⊆ namesOf (merged a xs) := by
          intro y hy
          rw [hnames, List.mem_append, mem_missing_iff]
          exact (Decidable.em (y ∈ namesOf a.span)).imp_right fun hn => ⟨hys hy, hn⟩
        rw [happly hfound hyd, merged_of_subset hyd hbound]
        simp only [missing_eq_nil_iff.2 hbound, if_true]
        rfl }

/-- A list of several lines that ends with a comma and binds a name under another one. -/
theorem apply_merged_lines :
    let st : Strategy := ⟨.icon, "icons", findAnchor {}, splice⟩
    let t := "import \x7b\n  Film as F,\n  Clock,\n\x7d from 'lucide-react';\n".toList
    let a : Anchor := ⟨.iconImport, "import \x7b".toList, "\n  Film as F,\n  Clock,\n".toList,
      "\x7d from 'lucide-react';\n".toList, "  ".toList⟩
    let xs := ["Star".toList, "Film".toList, "Star".toList, "Home".toList]
    strategy {} = .ok st ∧ '\x7b' ∉ ({} : AnchorSettings).iconLibrary ∧ st.findAnchor t = some a ∧
      (∀ x ∈ xs, ∃ entry, Metadata.icon? entry = some x) ∧
      namesOf a.span = ["Film".toList, "Clock".toList] ∧
      missing (namesOf a.span) xs = ["Star".toList, "Home".toList] ∧
      ∃ list, Merged st t a xs list := by
  intro st t a xs
  have hs : strategy {} = .ok st := rfl
  have hl : '\x7b' ∉ ({} : AnchorSettings).iconLibrary := by decide +kernel
  have ha : st.findAnchor t = some a := by decide +kernel
  have hxs : ∀ x ∈ xs, ∃ entry, Metadata.icon? entry = some x := by
    have hicon : ∀ x ∈ xs, Metadata.icon? ("icon: ".toList ++ x) = some x := by decide +kernel
    exact fun x hx => ⟨_, hicon x hx⟩
  exact ⟨hs, hl, ha, hxs, by decide +kernel, by decide +kernel, apply_merged hs hl ha hxs⟩

/-- Without icons a strategy answers that there is nothing to do, which is not that nothing is
new. -/
theorem apply_no_icons :
    let st : Strategy := ⟨.icon, "icons", findAnchor {}, splice⟩
    let t := "import \x7b A \x7d from \"lucide-react\";\n".toList
    strategy {} = .ok st ∧ '\x7b' ∉ ({} : AnchorSettings).iconLibrary ∧ (st.findAnchor t).isSome ∧
      (∀ x ∈ ([] : List Text), ∃ entry, Metadata.icon? entry = some x) ∧
      (st.apply t []).outcome = .empty ∧ (st.apply t []).outcome ≠ .nothingNew .iconImport := by
  refine ⟨rfl, by decide +kernel, by decide +kernel, by simp, rfl, ?_⟩
  rw [Strategy.apply_nil]
  simp

end Graft.Splice.Icons
