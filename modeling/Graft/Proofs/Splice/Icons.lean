import Graft.Proofs.Text.Suffix
import Graft.Proofs.Text.Solid
import Graft.Splice.Icons

/-!
# The icon library's import

* `nameList?_eq_some_iff`: the import is a head, a list of names without a closing brace, and a
  tail;
* `isSome_nameList?_transfer`: whether the import begins at a place in front of a list depends
  neither on the names in the list nor on what follows the tail;
* `findAnchor_eq_some_iff`: the anchor is the list of the first import;
* `extended_eq`, `merged_eq`: merging keeps the list up to the blanks at its end, and puts the new
  icons behind it, joined by commas.
-/

namespace Graft.Splice.Icons

open Text

/-- How the import begins, up to its opening brace. -/
def IsHead (head : Text) : Prop :=
  ∃ gap, isBlank gap ∧ head = "import".toList ++ gap ++ ['\x7b']

/-- How the library's import ends, from its closing brace on. -/
def IsTail (library tail : Text) : Prop :=
  ∃ g g' q q', isBlank g ∧ isBlank g' ∧ IsMark q ∧ IsMark q' ∧
    tail = '\x7d' :: (g ++ "from".toList ++ g' ++ q :: (library ++ [q']))

section
variable {library names after head tail t : Text}

theorem mem_import {c : Char} (h : c ∈ "import".toList) : c ≠ '\x7b' ∧ isSpace c = false := by
  have hall : ∀ c ∈ "import".toList, c ≠ '\x7b' ∧ isSpace c = false :=
    forall_mem_of_all rfl
  exact hall c h

theorem mem_from {c : Char} (h : c ∈ "from".toList) : c ≠ '\x7b' ∧ isSpace c = false := by
  have hall : ∀ c ∈ "from".toList, c ≠ '\x7b' ∧ isSpace c = false :=
    forall_mem_of_all rfl
  exact hall c h

theorem firm_from : Firm "from".toList := firm_of_head? rfl

/-- A head has one brace, and ends with it. -/
theorem IsHead.eq_concat (h : IsHead head) : ∃ p, head = p ++ ['\x7b'] ∧ '\x7b' ∉ p := by
  obtain ⟨gap, hg, rfl⟩ := h
  refine ⟨_, rfl, fun hm => ?_⟩
  rcases List.mem_append.1 hm with hm | hm
  · exact (mem_import hm).1 rfl
  · exact notMem_of_isBlank hg rfl hm

/-- A tail has no opening brace. -/
theorem IsTail.notMem (h : IsTail library tail) (hl : '\x7b' ∉ library) : '\x7b' ∉ tail := by
  obtain ⟨g, g', q, q', hg, hg', hq, hq', rfl⟩ := h
  have hmark : ∀ {c}, IsMark c → '\x7b' ≠ c := by
    rintro c (rfl | rfl) <;> decide
  simp only [List.mem_cons, List.mem_append, List.not_mem_nil, or_false, not_or]
  exact ⟨by decide, ⟨⟨notMem_of_isBlank hg rfl, fun hm => (mem_from hm).1 rfl⟩,
    notMem_of_isBlank hg' rfl⟩, hmark hq, hl, hmark hq'⟩

theorem IsTail.eq_cons (h : IsTail library tail) : ∃ u, tail = '\x7d' :: u := by
  obtain ⟨g, g', q, q', _, _, _, _, rfl⟩ := h
  exact ⟨_, rfl⟩

theorem takeWhile_append_cons {c : Char} {a b : Text} (ha : c ∉ a) :
    (a ++ c :: b).takeWhile (· != c) = a ∧ (a ++ c :: b).dropWhile (· != c) = c :: b := by
  have hall : ∀ d ∈ a, (d != c) = true := fun d hd => by
    rw [bne_iff_ne]
    rintro rfl
    exact ha hd
  rw [List.takeWhile_append_of_pos hall, List.dropWhile_append_of_pos hall]
  simp

/-- Two texts that go up to the first character with a property are the same. -/
theorem append_cons_inj {p : Char → Prop} {c d : Char} {a b a' b' : Text} (ha : ∀ x ∈ a, ¬ p x)
    (hc : p c) (ha' : ∀ x ∈ a', ¬ p x) (hd : p d) (h : a ++ c :: b = a' ++ d :: b') :
    a = a' ∧ c :: b = d :: b' := by
  rcases List.append_eq_append_iff.1 h with ⟨e, rfl, he⟩ | ⟨e, rfl, he⟩
  · cases e with
    | nil => exact ⟨(List.append_nil a).symm, he⟩
    | cons x e =>
      obtain ⟨rfl, _⟩ := List.cons.inj he
      exact absurd hc (ha' c (by simp))
  · cases e with
    | nil => exact ⟨List.append_nil a', he.symm⟩
    | cons x e =>
      obtain ⟨rfl, _⟩ := List.cons.inj he
      exact absurd hd (ha d (by simp))

/-- The import is a head, a list of names without a closing brace, and a tail. -/
theorem nameList?_eq_some_iff :
    nameList? library t = some (names, after) ↔
      ∃ head tail rest, IsHead head ∧ IsTail library tail ∧ '\x7d' ∉ names ∧
        after = tail ++ rest ∧ t = head ++ names ++ after := by
  have hbrace : Firm ['\x7b'] := ⟨_, _, rfl, rfl⟩
  simp only [nameList?, Option.bind_eq_bind, Option.bind_eq_some_iff, skip?_eq_some_iff,
    skipSpaced?_eq_some_iff hbrace, skipSpaced?_eq_some_iff firm_from,
    skipQuote?_trimStart_eq_some_iff]
  simp only [skipQuote?_eq_some_iff_mark, Option.some.injEq, Prod.mk.injEq]
  constructor
  · rintro ⟨_, rfl, t₂, ⟨gap, hg, rfl⟩, t₃, h₃, _, ⟨g, hg', rfl⟩, _, ⟨g', q, hg'', hq, rfl⟩, _, rfl,
      rest, ⟨q', hq', rfl⟩, rfl, rfl⟩
    refine ⟨_, _, rest, ⟨gap, hg, rfl⟩, ⟨g, g', q, q', hg', hg'', hq, hq', rfl⟩, ?_, ?_, ?_⟩
    · intro hm
      simpa using List.all_eq_true.1 List.all_takeWhile _ hm
    · rw [h₃]
      simp only [List.append_assoc, List.cons_append, List.nil_append]
    · simp only [List.append_assoc, List.takeWhile_append_dropWhile]
  · rintro ⟨_, _, rest, ⟨gap, hg, rfl⟩, ⟨g, g', q, q', hg', hg'', hq, hq', rfl⟩, hn, rfl, rfl⟩
    obtain ⟨ht, hd⟩ := takeWhile_append_cons (c := '\x7d')
      (b := g ++ "from".toList ++ g' ++ q :: (library ++ [q']) ++ rest) hn
    refine ⟨gap ++ ['\x7b'] ++ (names ++ '\x7d' :: (g ++ "from".toList ++ g' ++ q ::
      (library ++ [q']) ++ rest)), by simp, _, ⟨gap, hg, rfl⟩, _, hd,
      g' ++ q :: (library ++ q' :: rest), ⟨g, hg', ?_⟩, _, ⟨g', q, hg'', hq, rfl⟩, q' :: rest, rfl,
      rest, ⟨q', hq', rfl⟩, ht, hd⟩
    simp

theorem isSome_nameList? {rest : Text} (hh : IsHead head) (ht : IsTail library tail)
    (hn : '\x7d' ∉ names) : (nameList? library (head ++ names ++ (tail ++ rest))).isSome := by
  rw [nameList?_eq_some_iff.2 ⟨head, tail, rest, hh, ht, hn, rfl, rfl⟩]
  rfl

/-- A text up to the first brace of its kind is part of every text that goes on to such a brace. -/
theorem prefix_of_first {c : Char} {p p' a b : Text} (hp' : c ∉ p')
    (h : p ++ [c] ++ b = p' ++ [c] ++ a) : p' ++ [c] <+: p ++ [c] := by
  have h₁ : p' ++ [c] <+: p ++ [c] ++ b := ⟨a, h.symm⟩
  have h₂ : p ++ [c] <+: p ++ [c] ++ b := List.prefix_append _ _
  rcases List.prefix_or_prefix_of_prefix h₁ h₂ with h | h
  · exact h
  · rcases List.prefix_concat_iff.1 h with h | h
    · exact h ▸ List.prefix_rfl
    · exact absurd (h.subset (List.mem_append_right p (List.mem_singleton.2 rfl))) hp'

/-- An import whose list is closed within a text that ends with an opening brace ends within it. -/
theorem closes_within (hl : '\x7b' ∉ library) (hc : IsTail library tail) {found back q z : Text}
    (hfound : '\x7d' ∉ found) (hb : '\x7d' ∈ q) (hlast : q.getLast? = some '\x7b')
    (heq : q ++ z = found ++ (tail ++ back)) : ∃ c, q = found ++ tail ++ c := by
  obtain ⟨v, rfl⟩ := hc.eq_cons
  obtain ⟨a, b, rfl, ha⟩ := List.eq_append_cons_of_mem hb
  have hbrace : ∀ t : Text, '\x7d' ∉ t → ∀ x ∈ t, ¬ x = '\x7d' := fun t ht x hx hxb => ht (hxb ▸ hx)
  have heq' : a ++ '\x7d' :: (b ++ z) = found ++ '\x7d' :: (v ++ back) := by
    simpa using heq
  obtain ⟨rfl, hcons⟩ := append_cons_inj (hbrace a ha) rfl (hbrace found hfound) rfl heq'
  have hopen : '\x7b' ∈ b := by
    rw [List.getLast?_append] at hlast
    cases b with
    | nil => cases hlast
    | cons c b =>
      refine List.mem_of_getLast? (a := '\x7b') ?_
      simpa [List.getLast?_cons] using hlast
  have hv : v <+: b := by
    have h₁ : v <+: b ++ z := ⟨back, (List.cons.inj hcons).2.symm⟩
    refine (List.prefix_or_prefix_of_prefix h₁ (List.prefix_append b z)).resolve_right fun h => ?_
    exact hc.notMem hl (List.mem_cons_of_mem _ (h.subset hopen))
  obtain ⟨c, rfl⟩ := hv
  exact ⟨c, by simp⟩

/-- Whether an import begins in front of the brace that opens a list depends neither on the names in
the list nor on what follows the tail behind it. -/
theorem isSome_nameList?_transfer (hl : '\x7b' ∉ library) {pre names' rest rest' : Text}
    (hpre : ∃ p, pre = p ++ ['\x7b']) (hn' : '\x7d' ∉ names') (ht : IsTail library tail)
    (h : (nameList? library (pre ++ names ++ (tail ++ rest))).isSome) :
    (nameList? library (pre ++ names' ++ (tail ++ rest'))).isSome := by
  obtain ⟨⟨found, after⟩, hf⟩ := Option.isSome_iff_exists.1 h
  obtain ⟨head, close, back, hh, hc, hfound, rfl, heq⟩ := nameList?_eq_some_iff.1 hf
  obtain ⟨p, rfl⟩ := hpre
  obtain ⟨p', rfl, hp'⟩ := hh.eq_concat
  -- the only opening brace of the head is its last character
  obtain ⟨q, hq⟩ := prefix_of_first (p := p) (a := found ++ (close ++ back))
    (b := names ++ (tail ++ rest)) hp' (by simpa only [List.append_assoc] using heq)
  rw [← hq] at heq ⊢
  by_cases hb : '\x7d' ∈ q
  · -- the import ends in front of the list
    have hlast : q.getLast? = some '\x7b' := by
      have hends := congrArg List.getLast? hq
      obtain ⟨d, hd⟩ := Option.ne_none_iff_exists'.1
        (mt List.getLast?_eq_none_iff.1 (List.ne_nil_of_mem hb))
      rw [List.getLast?_append, hd, Option.some_or, List.getLast?_concat] at hends
      rw [hd, hends]
    have hclose : p' ++ ['\x7b'] ++ (q ++ (names ++ (tail ++ rest))) =
        p' ++ ['\x7b'] ++ (found ++ (close ++ back)) := by
      simpa only [List.append_assoc] using heq
    obtain ⟨c, rfl⟩ := closes_within hl hc hfound hb hlast (List.append_cancel_left hclose)
    have hmatch : (nameList? library (p' ++ ['\x7b'] ++ found ++
        (close ++ (c ++ names' ++ (tail ++ rest'))))).isSome :=
      isSome_nameList? hh hc hfound
    simpa only [List.append_assoc] using hmatch
  · have hmatch : (nameList? library (p' ++ ['\x7b'] ++ (q ++ names') ++
        (tail ++ rest'))).isSome :=
      isSome_nameList? hh ht (by simp [hb, hn'])
    simpa only [List.append_assoc] using hmatch

end

/-! ## The anchor -/

/-- The anchor is the list of the first import of the library. -/
theorem findAnchor_eq_some_iff {s : AnchorSettings} {t : Text} {a : Anchor} :
    findAnchor s t = some a ↔
      ∃ front head names tail rest,
        (IsHead head ∧ IsTail s.iconLibrary tail ∧ '\x7d' ∉ names) ∧
        t = front ++ (head ++ names ++ (tail ++ rest)) ∧
        (∀ p q, front = p ++ q → q ≠ [] →
          nameList? s.iconLibrary (q ++ (head ++ names ++ (tail ++ rest))) = none) ∧
        a = ⟨.iconImport, front ++ head, names, tail ++ rest, entryIndent names⟩ := by
  simp only [findAnchor, Option.map_eq_some_iff, Prod.exists]
  constructor
  · rintro ⟨front, names, after, hl, rfl⟩
    obtain ⟨t', rfl, hm, hfirst⟩ := leftmost_eq_some_iff.1 hl
    obtain ⟨head, tail, rest, hh, ht, hn, rfl, rfl⟩ := nameList?_eq_some_iff.1 hm
    refine ⟨front, head, names, tail, rest, ⟨hh, ht, hn⟩, rfl, hfirst, ?_⟩
    rw [List.append_assoc head, upTo_append_append]
  · rintro ⟨front, head, names, tail, rest, ⟨hh, ht, hn⟩, rfl, hfirst, rfl⟩
    refine ⟨front, names, tail ++ rest, leftmost_eq_some_iff.2 ⟨_, rfl, ?_, hfirst⟩, ?_⟩
    · exact nameList?_eq_some_iff.2 ⟨head, tail, rest, hh, ht, hn, rfl, rfl⟩
    · rw [List.append_assoc head, upTo_append_append]

theorem indent_of_findAnchor {s : AnchorSettings} {t : Text} {a : Anchor}
    (h : findAnchor s t = some a) : a.indent = entryIndent a.span := by
  obtain ⟨front, head, names, tail, rest, _, _, _, rfl⟩ := findAnchor_eq_some_iff.1 h
  rfl

theorem entryIndent_all_isIndent (names : Text) : (entryIndent names).all isIndent := by
  unfold entryIndent
  split
  · split
    · exact List.all_takeWhile
    · rfl
  · rfl

theorem isBlank_entryIndent (names : Text) : isBlank (entryIndent names) :=
  isBlank_of_all_isIndent (entryIndent_all_isIndent names)

theorem isBlank_indent_of_findAnchor {s : AnchorSettings} {t : Text} {a : Anchor}
    (h : findAnchor s t = some a) : isBlank a.indent :=
  indent_of_findAnchor h ▸ isBlank_entryIndent a.span

/-! ## Icons that are added -/

theorem mem_joinWith {sep : Text} {ts : List Text} {c : Char} (h : c ∈ joinWith sep ts) :
    c ∈ sep ∨ ∃ t ∈ ts, c ∈ t := by
  induction ts with
  | nil => cases h
  | cons t ts ih =>
    cases ts with
    | nil => exact .inr ⟨t, List.mem_cons_self, h⟩
    | cons u us =>
      rw [joinWith, List.mem_append, List.mem_append] at h
      rcases h with (h | h) | h
      · exact .inr ⟨t, List.mem_cons_self, h⟩
      · exact .inl h
      · rcases ih h with hc | ⟨v, hv, hc⟩
        · exact .inl hc
        · exact .inr ⟨v, List.mem_cons_of_mem t hv, hc⟩

theorem mem_fresh {seen icons : List Text} {name : Text} (h : name ∈ fresh seen icons) :
    ∃ icon ∈ icons, name = trim icon := by
  induction icons generalizing seen with
  | nil => cases h
  | cons icon icons ih =>
    simp only [fresh] at h
    split at h
    · obtain ⟨i, hi, rfl⟩ := ih h
      exact ⟨i, List.mem_cons_of_mem icon hi, rfl⟩
    · rcases List.mem_cons.1 h with rfl | h
      · exact ⟨icon, List.mem_cons_self, rfl⟩
      · obtain ⟨i, hi, rfl⟩ := ih h
        exact ⟨i, List.mem_cons_of_mem icon hi, rfl⟩

theorem exists_of_mem_fresh {seen icons : List Text} {c : Char}
    (h : ∃ name ∈ fresh seen icons, c ∈ name) : ∃ icon ∈ icons, c ∈ icon := by
  obtain ⟨name, hname, hc⟩ := h
  obtain ⟨icon, hicon, rfl⟩ := mem_fresh hname
  exact ⟨icon, hicon, mem_of_mem_trim hc⟩

/-- What stands in front of each of some texts goes into the separator. -/
theorem joinWith_map_append (sep lead : Text) {ts : List Text} (h : ts ≠ []) :
    joinWith sep (ts.map fun t => lead ++ t) = lead ++ joinWith (sep ++ lead) ts := by
  induction ts with
  | nil => exact absurd rfl h
  | cons t ts ih =>
    cases ts with
    | nil => rfl
    | cons u us =>
      have hrest := ih (List.cons_ne_nil u us)
      rw [List.map_cons] at hrest
      rw [List.map_cons, List.map_cons, joinWith, hrest, joinWith]
      simp only [List.append_assoc]

theorem flatten_commas {ts : List Text} (h : ts ≠ []) :
    (ts.map (· ++ [','])).flatten = joinWith [','] ts ++ [','] := by
  induction ts with
  | nil => exact absurd rfl h
  | cons t ts ih =>
    cases ts with
    | nil => simp [joinWith]
    | cons u us =>
      rw [List.map_cons, List.flatten_cons, ih (List.cons_ne_nil u us), joinWith]
      simp only [List.append_assoc]

/-- What stands around the icons that are added to a list. -/
def IsGlue (c : Char) : Prop := isSpace c = true ∨ c = ','

/-- A text of the icons, in order: a comma and blanks are between each and the next, and nothing but
blanks and commas is around them. -/
def Binds (icons : List Text) (t : Text) : Prop :=
  ∃ front gap back, (∀ c ∈ front, IsGlue c) ∧ isBlank gap ∧ (∀ c ∈ back, IsGlue c) ∧
    t = front ++ joinWith (',' :: gap) icons ++ back

theorem isGlue_of_isBlank {t : Text} (h : isBlank t) : ∀ c ∈ t, IsGlue c :=
  fun c hc => .inl (List.all_eq_true.1 h c hc)

theorem isGlue_comma_cons {t : Text} (h : ∀ c ∈ t, IsGlue c) : ∀ c ∈ ',' :: t, IsGlue c :=
  List.forall_mem_cons.2 ⟨.inr rfl, h⟩

/-- Each character is one of an icon's, or stands around the icons. -/
theorem Binds.mem {icons : List Text} {t : Text} (h : Binds icons t) {c : Char} (hc : c ∈ t) :
    IsGlue c ∨ ∃ icon ∈ icons, c ∈ icon := by
  obtain ⟨front, gap, back, hfront, hgap, hback, rfl⟩ := h
  simp only [List.mem_append] at hc
  rcases hc with (hc | hc) | hc
  · exact .inl (hfront c hc)
  · exact (mem_joinWith hc).imp_left (isGlue_comma_cons (isGlue_of_isBlank hgap) c)
  · exact .inl (hback c hc)

/-! ## Merging -/

/-- The list is kept up to the blanks at its end, and what is added binds the icons. -/
theorem extended_eq (list : Text) {indent : Text} (hi : isBlank indent) {icons : List Text}
    (hne : icons ≠ []) :
    ∃ added, extended list indent icons = trimEnd list ++ added ∧ Binds icons added := by
  have hspace : ∀ c ∈ [' '], IsGlue c := isGlue_of_isBlank rfl
  have hline : isBlank ('\n' :: indent) := hi
  have hback : ∀ c ∈ trailing list, IsGlue c := isGlue_of_isBlank (isBlank_trailing list)
  have hitems := joinWith_map_append [','] ('\n' :: indent) hne
  simp only [extended]
  split
  · rename_i hb
    rw [trimEnd_eq_nil_of_isBlank hb]
    exact ⟨_, rfl, [' '], [' '], [' '], hspace, rfl, hspace, rfl⟩
  · split
    · split
      · rw [flatten_commas (by simpa using hne), hitems]
        exact ⟨_, List.append_assoc _ _ _, '\n' :: indent, '\n' :: indent, ',' :: trailing list,
          isGlue_of_isBlank hline, hline, isGlue_comma_cons hback, by simp⟩
      · rw [hitems]
        exact ⟨_, by rw [List.append_assoc, List.append_assoc], ',' :: '\n' :: indent,
          '\n' :: indent, trailing list, isGlue_comma_cons (isGlue_of_isBlank hline), hline, hback,
          by simp⟩
    · split
      · exact ⟨_, by rw [List.append_assoc, List.append_assoc, List.append_assoc], [' '], [' '],
          ',' :: trailing list, hspace, rfl, isGlue_comma_cons hback, by simp⟩
      · exact ⟨_, by rw [List.append_assoc, List.append_assoc], [',', ' '], [' '], trailing list,
          isGlue_comma_cons hspace, rfl, hback, by simp⟩

/-- The list after icons are merged into it. -/
def merged (a : Anchor) (snippets : List Text) : Text :=
  let icons := fresh (namesOf a.span) snippets
  if icons.isEmpty then a.span else extended a.span a.indent icons

theorem splice_text (a : Anchor) (snippets : List Text) :
    (splice a snippets).text = a.replace (merged a snippets) := by
  simp only [splice, merged]
  split
  · rfl
  · rfl

/-- A merge keeps the list up to the blanks at its end, and what it adds binds the new icons. -/
theorem merged_eq {a : Anchor} (hi : isBlank a.indent) (snippets : List Text) :
    ∃ added, merged a snippets = trimEnd a.span ++ added ∧
      Binds (fresh (namesOf a.span) snippets) added := by
  simp only [merged]
  split
  · rename_i hnone
    rw [List.isEmpty_iff.1 hnone]
    refine ⟨trailing a.span, (trimEnd_append_trailing a.span).symm, trailing a.span, [], [], ?_, rfl,
      List.forall_mem_nil _, by simp [joinWith]⟩
    exact isGlue_of_isBlank (isBlank_trailing a.span)
  · rename_i hsome
    exact extended_eq a.span hi (by simpa using hsome)

/-- Merging makes no word whose last character is in no icon and between no two. -/
theorem contains_of_contains_merged {a : Anchor} (hi : isBlank a.indent) {snippets : List Text}
    {u : Text} {c : Char} (hc : ¬ IsGlue c) (hs : ∀ s ∈ snippets, c ∉ s)
    (h : contains (u ++ [c]) (merged a snippets)) : contains (u ++ [c]) a.span := by
  obtain ⟨added, he, hb⟩ := merged_eq hi snippets
  have hadded : c ∉ added := fun hm => by
    rcases hb.mem hm with hg | hnew
    · exact hc hg
    · obtain ⟨icon, hicon, hci⟩ := exists_of_mem_fresh hnew
      exact hs icon hicon hci
  rw [he, contains_append_iff] at h
  rcases h with h | h | ⟨x, y, _, hy, hxy, _, hp⟩
  · rw [← trimEnd_append_trailing a.span]
    exact contains_append_left h _
  · exact absurd ((contains_iff_isInfix.1 h).subset (by simp)) hadded
  · have hlast : c ∈ y := by
      have hl := congrArg List.getLast? hxy
      obtain ⟨d, hd⟩ := Option.ne_none_iff_exists'.1 (mt List.getLast?_eq_none_iff.1 hy)
      rw [List.getLast?_concat, List.getLast?_append, hd] at hl
      obtain rfl := Option.some.inj hl
      exact List.mem_of_getLast? hd
    exact absurd (hp.subset hlast) hadded

/-- A list without a closing brace stays one. -/
theorem notMem_merged {a : Anchor} (hi : isBlank a.indent) {snippets : List Text} {c : Char}
    (hc : ¬ IsGlue c) (hs : ∀ s ∈ snippets, c ∉ s) (h : c ∉ a.span) : c ∉ merged a snippets := by
  intro hm
  obtain ⟨x, y, hxy⟩ := List.append_of_mem hm
  have hword : contains ([] ++ [c]) (merged a snippets) :=
    contains_iff.2 ⟨x, y, by rw [hxy]; simp⟩
  exact h ((contains_iff_isInfix.1 (contains_of_contains_merged hi hc hs hword)).subset (by simp))

end Graft.Splice.Icons
