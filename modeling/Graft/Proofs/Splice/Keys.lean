import Graft.Proofs.Record.Metadata
import Graft.Proofs.Splice.Entries
import Graft.Proofs.Splice.Icons

/-!
# Keys that splicing into a listing keeps

A key of an entry's path is the path in quotes behind `path:`.  Splicing cuts a listing in three
places: at the end of the icon library's list, at the end of the array's body, and behind the last
code of the body.

* `contains_key_icons`: merging icons keeps a key unless its path ends like the import's tail;
* `contains_key_entries`: adding entries keeps a key unless its path closes the array or opens a
  comment.
-/

namespace Graft.Splice

open Text

/-- A key of the path, with either quote. -/
def IsKey (path key : Text) : Prop := ∃ q, IsMark q ∧ key = "path: ".toList ++ [q] ++ (path ++ [q])

theorem isKey_of_mem_entryKeys {path key : Text} (h : key ∈ Metadata.entryKeys path) :
    IsKey path key := by
  delta Metadata.entryKeys at h
  rcases List.mem_cons.1 h with rfl | h
  · exact ⟨'"', .inl rfl, by simp⟩
  · obtain rfl := List.mem_singleton.1 h
    exact ⟨'\'', .inr rfl, by simp⟩

/-- The path ends like a tail up to its first quote. -/
def EndsLikeTail (path : Text) : Prop :=
  ∃ front g g', isBlank g ∧ isBlank g' ∧ path = front ++ '\x7d' :: (g ++ "from".toList ++ g')

/-- No part of the path can be taken for an end of what entries or icons stand in. -/
structure EntrySound (path : Text) : Prop where
  close : contains Entries.close path = false
  comment : contains "//".toList path = false
  tail : ¬ EndsLikeTail path

section
variable {path key a gap r : Text} {x q : Char}

theorem notMem_pathKey {c : Char} (hc : c ∈ ['\x7d', ']', '/']) : c ∉ "path: ".toList := by
  have hall : ∀ c ∈ ['\x7d', ']', '/'], c ∉ "path: ".toList :=
    forall_mem_of_all rfl
  exact hall c hc

/-- What goes up to a quote goes past blanks and past a character that is no quote. -/
theorem prefix_of_mark {w : Text} (hq : IsMark q) (hgap : isBlank gap) (hxm : ¬ IsMark x)
    (h : w ++ [q] <+: gap ++ x :: r) : gap ++ [x] <+: w := by
  have hgx : gap ++ [x] <+: gap ++ x :: r := ⟨r, by simp⟩
  rcases List.prefix_or_prefix_of_prefix h hgx with hp | hp
  · rcases List.prefix_concat_iff.1 hp with he | hin
    · obtain ⟨_, he⟩ := List.append_inj' he rfl
      exact absurd ((List.cons.inj he).1 ▸ hq) hxm
    · exact absurd (hin.subset (by simp)) (notMem_of_isBlank hgap hq.isSpace)
  · rcases List.prefix_concat_iff.1 hp with he | hin
    · obtain ⟨_, he⟩ := List.append_inj' he rfl
      exact absurd ((List.cons.inj he).1 ▸ hq) hxm
    · exact hin

/-- A key that lies across a place in front of blanks and a character that is no quote lies across
it with its path. -/
theorem exists_suffix_of_straddles (hq : IsMark q) (hgap : isBlank gap) (hx : x ∉ "path: ".toList)
    (hxm : ¬ IsMark x) (h : Straddles ("path: ".toList ++ [q] ++ (path ++ [q])) a (gap ++ x :: r)) :
    ∃ v, v <:+ path ∧ v ++ [q] <+: gap ++ x :: r := by
  obtain ⟨u, v, _, hv, hw, _, hp⟩ := h
  rcases List.append_eq_append_iff.1 hw with ⟨w, _, hw⟩ | ⟨w, hP, rfl⟩
  · rcases List.eq_nil_or_concat v with rfl | ⟨v', c, rfl⟩
    · exact absurd rfl hv
    · have hw' : path ++ [q] = (w ++ v') ++ [c] := by simpa using hw
      obtain ⟨hpath, hc⟩ := List.append_inj' hw' rfl
      obtain rfl := (List.cons.inj hc).1
      exact ⟨v', ⟨w, hpath.symm⟩, by simpa using hp⟩
  · rcases List.eq_nil_or_concat w with rfl | ⟨w', c, rfl⟩
    · exact ⟨path, List.suffix_refl path, by simpa using hp⟩
    · -- its first quote would lie behind the place, and `x` in front of that quote
      have hP' : "path: ".toList ++ [q] = (u ++ w') ++ [c] := by simpa using hP
      obtain ⟨hpre, hc⟩ := List.append_inj' hP' rfl
      obtain rfl := (List.cons.inj hc).1
      have hwp : w' ++ [q] <+: gap ++ x :: r :=
        List.IsPrefix.trans ⟨path ++ [q], by simp⟩ hp
      have hm : x ∈ w' := (prefix_of_mark hq hgap hxm hwp).subset (by simp)
      exact absurd (hpre ▸ List.mem_append_right u hm) hx

/-- A key that lies across a place in front of blanks and two characters that are no quotes has both
in its path. -/
theorem contains_of_straddles {y : Char} (hq : IsMark q) (hgap : isBlank gap)
    (hx : x ∉ "path: ".toList) (hxm : ¬ IsMark x) (hym : ¬ IsMark y)
    (h : Straddles ("path: ".toList ++ [q] ++ (path ++ [q])) a (gap ++ x :: y :: r)) :
    contains [x, y] path := by
  obtain ⟨v, hv, hp⟩ := exists_suffix_of_straddles hq hgap hx hxm h
  obtain ⟨z, rfl⟩ := prefix_of_mark hq hgap hxm hp
  have hz : z ++ [q] <+: y :: r := by
    have hp' : (gap ++ [x]) ++ (z ++ [q]) <+: (gap ++ [x]) ++ (y :: r) := by simpa using hp
    exact (List.prefix_append_right_inj _).1 hp'
  cases z with
  | nil => exact absurd ((List.cons_prefix_cons.1 hz).1 ▸ hq) hym
  | cons c z =>
    obtain ⟨rfl, _⟩ := List.cons_prefix_cons.1 hz
    refine contains_trans ?_ (contains_iff_isInfix.2 hv.isInfix)
    exact contains_iff.2 ⟨gap, z, by simp⟩

/-- A key that lies across a place in front of blanks and a tail has a path that ends so. -/
theorem endsLikeTail_of_straddles {library tail : Text} (hq : IsMark q)
    (hp : ∀ c ∈ path, ¬ IsMark c) (hgap : isBlank gap) (ht : Icons.IsTail library tail)
    (h : Straddles ("path: ".toList ++ [q] ++ (path ++ [q])) a (gap ++ (tail ++ r))) :
    EndsLikeTail path := by
  obtain ⟨g, g', m, m', hg, hg', hm, _, rfl⟩ := ht
  have hbrace : ¬ IsMark '\x7d' := by unfold IsMark; decide
  obtain ⟨v, ⟨front, hfront⟩, z, hz⟩ :=
    exists_suffix_of_straddles hq hgap (notMem_pathKey (by decide)) hbrace h
  have hunquoted : ∀ c ∈ gap ++ '\x7d' :: (g ++ "from".toList ++ g'), ¬ IsMark c := by
    have hblank : ∀ t : Text, isBlank t → ∀ c ∈ t, ¬ IsMark c := fun t ht c hc hcm =>
      notMem_of_isBlank ht hcm.isSpace hc
    have hfrom : ∀ c ∈ "from".toList, c ≠ '"' ∧ c ≠ '\'' :=
      forall_mem_of_all rfl
    intro c hc
    simp only [List.mem_append, List.mem_cons] at hc
    rcases hc with hc | rfl | (hc | hc) | hc
    · exact hblank gap hgap c hc
    · exact hbrace
    · exact hblank g hg c hc
    · exact fun hcm => hcm.elim (hfrom c hc).1 (hfrom c hc).2
    · exact hblank g' hg' c hc
  have heq : v ++ q :: z =
      gap ++ '\x7d' :: (g ++ "from".toList ++ g') ++ m :: (library ++ [m'] ++ r) := by
    simpa using hz
  obtain ⟨rfl, _⟩ :=
    Icons.append_cons_inj (fun c hc => hp c (hfront ▸ List.mem_append_right front hc)) hq
      hunquoted hm heq
  exact ⟨front ++ gap, g, g', hg, hg', hfront.symm.trans (List.append_assoc _ _ _).symm⟩

end

/-! ## Splices -/

section
variable {path key t a gap r : Text}

theorem IsKey.firm (h : IsKey path key) : Firm key := by
  obtain ⟨q, _, rfl⟩ := h
  have hfirm : Firm "path: ".toList := firm_of_head? rfl
  obtain ⟨c, u, hp, hc⟩ := hfirm
  exact ⟨c, u ++ [q] ++ (path ++ [q]), by rw [hp]; rfl, hc⟩

theorem IsKey.last (h : IsKey path key) : ∃ u c, key = u ++ [c] ∧ isSpace c = false := by
  obtain ⟨q, hq, rfl⟩ := h
  exact ⟨"path: ".toList ++ [q] ++ path, q, by simp, hq.isSpace⟩

/-! A key of a sound path does not lie across the places at which splices cut a listing. -/

theorem IsKey.solid (h : IsKey path key) (hline : '\n' ∉ path) : Solid key where
  first := h.firm
  last := h.last
  oneLine := by
    obtain ⟨q, hq, rfl⟩ := h
    have hmark : '\n' ≠ q := by
      rcases hq with rfl | rfl
      · decide
      · decide
    simp [hline, hmark]

theorem EntrySound.not_straddles_close (hp : EntrySound path) (hk : IsKey path key)
    (hgap : isBlank gap) : ¬ Straddles key a (gap ++ (Entries.close ++ r)) := by
  intro hs
  obtain ⟨q, hq, rfl⟩ := hk
  have hclose : Entries.close = [']', ';'] := rfl
  rw [hclose] at hs
  have hpath := contains_of_straddles hq hgap (notMem_pathKey (by decide))
    (by unfold IsMark; decide) (by unfold IsMark; decide) hs
  rw [← hclose, hp.close] at hpath
  cases hpath

theorem EntrySound.not_straddles_comment (hp : EntrySound path) (hk : IsKey path key)
    (hgap : isBlank gap) : ¬ Straddles key a (gap ++ '/' :: '/' :: r) := by
  intro hs
  obtain ⟨q, hq, rfl⟩ := hk
  have hslash : "//".toList = ['/', '/'] := rfl
  have hpath := contains_of_straddles hq hgap (notMem_pathKey (by decide))
    (by unfold IsMark; decide) (by unfold IsMark; decide) hs
  rw [← hslash, hp.comment] at hpath
  cases hpath

theorem EntrySound.not_straddles_tail {library tail : Text} (hp : EntrySound path)
    (hk : IsKey path key) (hu : ∀ c ∈ path, ¬ IsMark c) (hgap : isBlank gap)
    (ht : Icons.IsTail library tail) : ¬ Straddles key a (gap ++ (tail ++ r)) := by
  intro hs
  obtain ⟨q, hq, rfl⟩ := hk
  exact hp.tail (endsLikeTail_of_straddles hq hu hgap ht hs)

/-- A key keeps from being cut in front of blanks when these give way to something else. -/
theorem contains_replace_blank {b : Text} (hk : IsKey path key) (hgap : isBlank gap)
    (hs : ¬ Straddles key a (gap ++ b)) (hc : contains key (a ++ (gap ++ b))) (m : Text) :
    contains key (a ++ (m ++ b)) := by
  rcases contains_append_iff.1 hc with hc | hc | hc
  · exact contains_append_left hc _
  · have hb : contains key b :=
      contains_iff_isInfix.2 (infix_of_blank_append hk.firm hgap (contains_iff_isInfix.1 hc))
    exact contains_append_right a (contains_append_right m hb)
  · exact absurd hc hs

/-- A key of a sound path is not cut in front of what is no code. -/
theorem contains_append_dead {dead : Text} (hk : IsKey path key) (hp : EntrySound path)
    (hd : Entries.Dead dead) (hc : contains key (a ++ dead)) :
    contains key a ∨ contains key dead := by
  obtain ⟨gap, comment, rfl, hgap, rfl | ⟨u, rfl⟩⟩ := hd
  · rw [List.append_nil, contains_iff_isInfix] at hc
    exact .inl (contains_iff_isInfix.2 (infix_of_append_blank hk.last hgap hc))
  · rcases contains_append_iff.1 hc with hc | hc | hs
    · exact .inl hc
    · exact .inr hc
    · exact absurd hs (hp.not_straddles_comment hk hgap)

/-- Merging icons keeps a key of a sound path. -/
theorem contains_key_icons {s : AnchorSettings} {a : Anchor} (ha : Icons.findAnchor s t = some a)
    (hk : IsKey path key) (hu : ∀ c ∈ path, ¬ IsMark c) (hp : EntrySound path)
    (hc : contains key t) (snippets : List Text) :
    contains key (Icons.splice a snippets).text := by
  obtain ⟨front, head, names, tail, rest, ⟨_, ht, _⟩, rfl, _, rfl⟩ :=
    Icons.findAnchor_eq_some_iff.1 ha
  obtain ⟨added, hm, _⟩ := Icons.merged_eq
    (a := ⟨.iconImport, front ++ head, names, tail ++ rest, Icons.entryIndent names⟩)
    (Icons.isBlank_entryIndent names) snippets
  rw [Icons.splice_text, Anchor.replace, hm]
  have hcut : front ++ (head ++ names ++ (tail ++ rest)) =
      front ++ head ++ trimEnd names ++ (trailing names ++ (tail ++ rest)) := by
    conv => lhs; rw [← trimEnd_append_trailing names]
    simp only [List.append_assoc]
  rw [hcut] at hc
  have hblank := isBlank_trailing names
  have hnew := contains_replace_blank hk hblank (hp.not_straddles_tail hk hu hblank ht) hc added
  simpa only [List.append_assoc] using hnew

/-- Adding entries keeps a key of a sound path. -/
theorem contains_key_entries {s : AnchorSettings} (hn : Firm s.listName) (hty : Firm s.listType)
    {a : Anchor} (ha : Entries.findAnchor s t = some a) (hk : IsKey path key)
    (hp : EntrySound path) (hc : contains key t) (snippets : List Text) :
    contains key (Entries.splice a snippets).text := by
  obtain ⟨front, head, body, rest, _, rfl, _, _, rfl⟩ :=
    (Entries.findAnchor_eq_some_iff hn hty).1 ha
  rw [Entries.splice_text]
  dsimp only
  have hcut : front ++ (head ++ (body ++ (Entries.close ++ rest))) =
      front ++ head ++ trimEnd body ++ (trailing body ++ (Entries.close ++ rest)) := by
    conv => lhs; rw [← trimEnd_append_trailing body]
    simp only [List.append_assoc]
  rw [hcut] at hc
  have hbehind : ¬ Straddles key (front ++ head ++ trimEnd body)
      (trailing body ++ (Entries.close ++ rest)) :=
    hp.not_straddles_close hk (isBlank_trailing body)
  rcases Entries.extended_eq body (Entries.block s.listIndent snippets) with
    ⟨more, he⟩ | ⟨code, dead, more, hkept, hdead, he⟩
  · have hnew := contains_replace_blank hk (isBlank_trailing body) hbehind hc more
    rw [he]
    simpa only [List.append_assoc] using hnew
  · rw [he]
    rcases contains_append_iff.1 hc with hc | hc | hc
    · rw [hkept, ← List.append_assoc] at hc
      rcases contains_append_dead hk hp hdead hc with hc | hc
      · have hnew := contains_append_left hc (',' :: dead ++ more ++ (Entries.close ++ rest))
        simpa only [List.append_assoc, List.cons_append] using hnew
      · have hnew := contains_append_right (front ++ head ++ code ++ [','])
          (contains_append_left hc (more ++ (Entries.close ++ rest)))
        simpa only [List.append_assoc, List.cons_append, List.nil_append] using hnew
    · have hafter : contains key (Entries.close ++ rest) :=
        contains_iff_isInfix.2
          (infix_of_blank_append hk.firm (isBlank_trailing body) (contains_iff_isInfix.1 hc))
      exact contains_append_right _ hafter
    · exact absurd hc hbehind

end

end Graft.Splice
