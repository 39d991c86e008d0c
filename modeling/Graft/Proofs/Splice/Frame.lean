import Graft.Proofs.Record.Metadata
import Graft.Proofs.Splice.Declaration
import Graft.Proofs.Text.Trim

/-!
# Two splices into one listing

Icons are merged into a list, and entries are added to a body, which lie apart in the listing.

* `Anchor.replaceBoth`: the listing with other texts in the two spans;
* `exists_declaration`: merging icons moves the declaration with the text around it;
* `exists_grown`: icons that come to stand in front of a body stay in front of it.
-/

namespace Graft.Splice

open Text

namespace Anchor

/-- Where the span begins. -/
def start (a : Anchor) : Nat := a.before.length

/-- Where the span ends. -/
def stop (a : Anchor) : Nat := a.before.length + a.span.length

/-- The spans of two anchors on one text do not overlap. -/
def Apart (a b : Anchor) : Prop := a.stop ≤ b.start ∨ b.stop ≤ a.start

instance (a b : Anchor) : Decidable (Apart a b) := inferInstanceAs (Decidable (_ ∨ _))

/-- The text that two anchors lie apart in, with other texts in their spans. -/
def replaceBoth (a b : Anchor) (s s' : Text) : Text :=
  if a.stop ≤ b.start then a.before ++ s ++ (b.before.drop a.stop ++ s' ++ b.after)
  else b.before ++ s' ++ (a.before.drop b.stop ++ s ++ a.after)

variable {a b : Anchor}

/-- What stands between two spans. -/
theorem exists_between (ht : a.text = b.text) (h : a.stop ≤ b.start) :
    ∃ m, b.before = a.before ++ a.span ++ m ∧ b.before.drop a.stop = m ∧
      a.after = m ++ (b.span ++ b.after) := by
  have hcut : a.before ++ a.span ++ a.after = b.before ++ (b.span ++ b.after) := by
    rw [← List.append_assoc]
    exact ht
  have hp : a.before ++ a.span <+: b.before := by
    refine List.prefix_of_prefix_length_le ⟨_, hcut⟩ (List.prefix_append _ _) ?_
    simpa [stop, start] using h
  obtain ⟨m, hm⟩ := hp
  refine ⟨m, hm.symm, ?_, ?_⟩
  · rw [← hm, stop, ← List.length_append, List.drop_left]
  · rw [← hm, List.append_assoc _ m] at hcut
    exact List.append_cancel_left hcut

/-- With the spans as they are, the text is as it is. -/
theorem replaceBoth_span (ht : a.text = b.text) (h : Apart a b) :
    a.replaceBoth b a.span b.span = b.text := by
  unfold replaceBoth
  split
  · rename_i hle
    obtain ⟨m, hb, hd, _⟩ := exists_between ht hle
    rw [hd, text, hb]
    simp only [List.append_assoc]
  · rename_i hn
    obtain ⟨m, ha, hd, _⟩ := exists_between ht.symm (h.resolve_left hn)
    rw [hd, ← ht, text, ha]
    simp only [List.append_assoc]

end Anchor

/-! ## What icons bring into a listing -/

/-- The texts are made of the characters of identifiers. -/
def Identifiers (icons : List Text) : Prop := ∀ icon ∈ icons, ∀ c ∈ icon, isIdentRest c = true

theorem Identifiers.fresh {icons : List Text} (h : Identifiers icons) (seen : List Text) :
    Identifiers (Icons.fresh seen icons) := by
  intro name hname c hc
  obtain ⟨icon, hicon, hci⟩ := Icons.exists_of_mem_fresh ⟨name, hname, hc⟩
  exact h icon hicon c hci

/-- Icons bring in nothing but identifiers, blanks and commas. -/
theorem Icons.Binds.notMem {icons : List Text} {t : Text} (h : Icons.Binds icons t)
    (hi : Identifiers icons) {c : Char} (hg : ¬ Icons.IsGlue c) (hc : isIdentRest c = false) :
    c ∉ t := by
  intro hm
  rcases h.mem hm with hglue | ⟨icon, hicon, hci⟩
  · exact hg hglue
  · rw [hi icon hicon c hci] at hc
    cases hc

/-- No declaration is in a text that a brace cuts, unless it is in a part. -/
theorem Entries.IsOpening.contains_cut_iff {s : AnchorSettings} (hs : Plain s) {o : Text}
    (ho : Entries.IsOpening s.listName s.listType o) {c : Char} (hc : c ∈ Entries.marks)
    (x y : Text) : contains o (x ++ c :: y) ↔ contains o x ∨ contains o y := by
  have hne : o ≠ [] := by
    obtain ⟨u, rfl⟩ := ho.eq_concat
    simp
  have h := contains_separated_iff (b := y) (opening_notMem hs ho hc) hne x
  simpa using h

/-- A text that ends in a word goes on behind a character that the word lacks. -/
theorem exists_of_append_eq_cons {c : Char} {front word x y : Text} (hc : c ∉ word)
    (h : front ++ word = x ++ c :: y) : ∃ z, front = x ++ c :: z ∧ y = z ++ word := by
  rcases List.append_eq_append_iff.1 h with ⟨z, rfl, rfl⟩ | ⟨z, rfl, hz⟩
  · exact absurd (List.mem_append_right z List.mem_cons_self) hc
  · cases z with
    | nil =>
      rw [List.nil_append] at hz
      exact absurd (hz ▸ List.mem_cons_self) hc
    | cons d z =>
      obtain ⟨rfl, rfl⟩ := List.cons.inj hz
      exact ⟨z, rfl, rfl⟩

/-- A merged list declares nothing that the list did not. -/
theorem Icons.undeclared_merged {a : Anchor} (ha : isBlank a.indent) {icons : List Text}
    (hi : Identifiers icons) {name type o : Text} (ho : Entries.IsOpening name type o)
    (h : contains o a.span = false) :
    contains o (Icons.merged a icons) = false := by
  have hglue : ¬ Icons.IsGlue '[' := by unfold Icons.IsGlue; decide
  have hbracket : ∀ icon ∈ icons, '[' ∉ icon := fun icon hicon hm =>
    absurd (hi icon hicon _ hm) (by decide)
  refine Bool.eq_false_iff.2 fun hc => ?_
  obtain ⟨u, rfl⟩ := ho.eq_concat
  rw [Icons.contains_of_contains_merged ha hglue hbracket hc] at h
  cases h

theorem Icons.text_of_findAnchor {s : AnchorSettings} {t : Text} {a : Anchor}
    (h : Icons.findAnchor s t = some a) : a.text = t := by
  obtain ⟨front, head, names, tail, rest, _, rfl, _, rfl⟩ := Icons.findAnchor_eq_some_iff.1 h
  simp only [Anchor.text, List.append_assoc]

section
variable {s : AnchorSettings} (hs : Distinct s) {t : Text} {a b : Anchor} {icons : List Text}
include hs

theorem Entries.indent_of_findAnchor (h : Entries.findAnchor s t = some b) :
    b.indent = s.listIndent := by
  obtain ⟨front, head, body, rest, _, _, rfl⟩ := (Entries.findAnchor_iff_declares hs).1 h
  rfl

/-- Another list of names in front of a declaration leaves it the first one. -/
theorem Entries.Declares.move {front names names' m head body : Text}
    (h : Entries.Declares s (front ++ '\x7b' :: (names ++ '\x7d' :: m)) head body)
    (hn : ∀ o, Entries.IsOpening s.listName s.listType o → contains o names = false →
      contains o names' = false) :
    Entries.Declares s (front ++ '\x7b' :: (names' ++ '\x7d' :: m)) head body := by
  refine ⟨h.opens, h.unclosed, fun o ho => ?_⟩
  have hcut : ∀ list, contains o (front ++ '\x7b' :: (list ++ '\x7d' :: m)) = false ↔
      contains o front = false ∧ contains o list = false ∧ contains o m = false := by
    intro list
    simp only [← Bool.not_eq_true, ho.contains_cut_iff hs.plain (c := '\x7b') (by decide),
      ho.contains_cut_iff hs.plain (c := '\x7d') (by decide), not_or]
  obtain ⟨hfront, hnames, hm⟩ := (hcut names).1 (h.first o ho)
  exact (hcut names').2 ⟨hfront, hn o ho hnames, hm⟩

omit hs in
/-- A text without a bracket in front of the body closes nothing. -/
theorem Entries.Declares.shift {front head body x : Text} (h : Entries.Declares s front head body)
    (hx : ']' ∉ x) : Entries.Declares s front head (x ++ body) := by
  refine ⟨h.opens, Bool.eq_false_iff.2 fun hc => ?_, h.first⟩
  rcases contains_append_iff.1 hc with hc | hc | ⟨u, v, hu, _, huv, hsuf, _⟩
  · exact hx ((contains_iff_isInfix.1 hc).subset (by rw [Entries.close_eq]; exact List.mem_cons_self))
  · rw [h.unclosed] at hc
    cases hc
  · obtain ⟨c, u, rfl⟩ := List.exists_cons_of_ne_nil hu
    rw [Entries.close_eq] at huv
    obtain ⟨rfl, _⟩ := List.cons.inj huv
    exact hx (hsuf.subset List.mem_cons_self)

/-- Icons that are merged in front of the declaration move it, or its body if it begins behind the
list. -/
theorem exists_declaration_behind (ha : Icons.findAnchor s t = some a)
    (hb : Entries.findAnchor s t = some b) (hle : a.stop ≤ b.start) (hi : Identifiers icons) :
    ∃ shift b', Entries.findAnchor s (a.replace (Icons.merged a icons)) = some b' ∧
      b'.span = shift ++ b.span ∧ b'.indent = b.indent ∧
      (∀ body, b'.replace (shift ++ body) = a.replaceBoth b (Icons.merged a icons) body) ∧
      (shift = [] ∨ a.stop = b.start ∧ '/' ∉ shift ∧ ∃ u, b.span = '\x7d' :: u) := by
  have hta := Icons.text_of_findAnchor ha
  have htb := Entries.text_of_findAnchor hb
  obtain ⟨m, hbefore, hdrop, hafter⟩ := Anchor.exists_between (hta.trans htb.symm) hle
  obtain ⟨front, head, names, tail, rest, ⟨hh, ht, hn⟩, _, _, rfl⟩ :=
    Icons.findAnchor_eq_some_iff.1 ha
  obtain ⟨front', opening, body, rest', hd, _, rfl⟩ :=
    (Entries.findAnchor_iff_declares hs).1 hb
  have hblank : isBlank (Icons.entryIndent names) := Icons.isBlank_entryIndent names
  have hnew := hi.fresh (Icons.namesOf names)
  obtain ⟨added, hmerged, hbinds⟩ := Icons.merged_eq (a := ⟨.iconImport, front ++ head, names,
    tail ++ rest, Icons.entryIndent names⟩) hblank icons
  have hundeclared : ∀ o, Entries.IsOpening s.listName s.listType o → contains o names = false →
      contains o (Icons.merged ⟨.iconImport, front ++ head, names, tail ++ rest,
        Icons.entryIndent names⟩ icons) = false := fun o ho hc =>
    Icons.undeclared_merged hblank hi ho hc
  simp only [Anchor.replaceBoth, if_pos hle]
  generalize Icons.merged _ icons = names' at *
  dsimp only at hbefore hdrop hafter hmerged
  obtain ⟨v, rfl⟩ := ht.eq_cons
  obtain ⟨w, rfl, hw⟩ := hh.eq_concat
  cases m with
  | cons c m =>
    obtain ⟨rfl, hrest⟩ := List.cons.inj hafter
    obtain ⟨z, rfl, rfl⟩ := exists_of_append_eq_cons (opening_notMem hs.plain hd.opens
      (c := '\x7d') (by decide)) hbefore
    have hmoved : Entries.Declares s (front ++ w ++ '\x7b' :: (names' ++ '\x7d' :: z)) opening
        body := by
      have hold : Entries.Declares s (front ++ w ++ '\x7b' :: (names ++ '\x7d' :: z)) opening
          body := by simpa using hd
      exact hold.move hs hundeclared
    refine ⟨[], ⟨.listDeclaration, front ++ w ++ '\x7b' :: (names' ++ '\x7d' :: z) ++ opening, body,
      Entries.close ++ rest', s.listIndent⟩, ?_, rfl, rfl, fun body' => ?_, .inl rfl⟩
    · rw [← hmoved.findAnchor_eq hs rest', Anchor.replace, hafter]
      simp only [List.append_assoc, List.cons_append, List.nil_append]
    · rw [Anchor.replace, hdrop]
      simp only [List.append_assoc, List.cons_append, List.nil_append]
  | nil =>
    have hlist : front' ++ opening = front ++ w ++ '\x7b' :: names := by simpa using hbefore
    obtain ⟨z, rfl, rfl⟩ := exists_of_append_eq_cons (opening_notMem hs.plain hd.opens
      (c := '\x7b') (by decide)) hlist
    have hkept : trimEnd (z ++ opening) = z ++ opening := by
      obtain ⟨u, rfl⟩ := hd.opens.eq_concat
      exact trimEnd_of_last ⟨z ++ u, '[', (List.append_assoc _ _ _).symm, rfl⟩
    rw [hkept] at hmerged
    subst hmerged
    have hadded : ∀ c, ¬ Icons.IsGlue c → isIdentRest c = false → c ∉ added := fun _ hg hc =>
      hbinds.notMem hnew hg hc
    have hshift := hd.shift (hadded ']' (by unfold Icons.IsGlue; decide) (by decide))
    refine ⟨added, ⟨.listDeclaration, front ++ w ++ '\x7b' :: z ++ opening, added ++ body,
      Entries.close ++ rest', s.listIndent⟩, ?_, rfl, rfl, fun body' => ?_, .inr ⟨?_, ?_, ?_⟩⟩
    · rw [← hshift.findAnchor_eq hs rest', Anchor.replace, hafter]
      simp only [List.append_assoc, List.cons_append, List.nil_append]
    · rw [Anchor.replace, hdrop]
      simp only [List.append_assoc, List.cons_append, List.nil_append]
    · simp only [Anchor.stop, Anchor.start, List.length_append, List.length_cons, List.length_nil]
      omega
    · exact hadded '/' (by unfold Icons.IsGlue; decide) (by decide)
    · cases body with
      | nil =>
        rw [Entries.close_eq] at hafter
        exact absurd (List.cons.inj hafter).1 (by decide)
      | cons c body => exact ⟨body, by rw [(List.cons.inj hafter).1]⟩

omit hs in
/-- The close of the body stays whole when the names behind it are merged. -/
theorem exists_close {m names tail rest rest' : Text} (hm : m = [] ∨ ∃ u, m = u ++ ['\x7b'])
    (ht : ∃ v, tail = '\x7d' :: v) (h : m ++ (names ++ (tail ++ rest)) = Entries.close ++ rest')
    (added : Text) :
    ∃ back, m ++ (trimEnd names ++ added ++ (tail ++ rest)) = Entries.close ++ back := by
  obtain ⟨v, rfl⟩ := ht
  rw [Entries.close_eq] at *
  rcases hm with rfl | ⟨u, rfl⟩
  · cases names with
    | nil => exact absurd (List.cons.inj h).1 (by decide)
    | cons c names =>
      obtain ⟨rfl, hsnd⟩ := List.cons.inj h
      cases names with
      | nil => exact absurd (List.cons.inj hsnd).1 (by decide)
      | cons d names =>
        obtain ⟨rfl, -⟩ := List.cons.inj hsnd
        obtain ⟨z, hz⟩ : [']', ';'] <+: trimEnd (']' :: ';' :: names) :=
          prefix_trimEnd ⟨[']'], ';', rfl, rfl⟩ names
        refine ⟨z ++ added ++ ('\x7d' :: v ++ rest), ?_⟩
        rw [← hz]
        simp only [List.append_assoc, List.nil_append]
  · cases u with
    | nil => exact absurd (List.cons.inj h).1 (by decide)
    | cons c u =>
      obtain ⟨rfl, hsnd⟩ := List.cons.inj h
      cases u with
      | nil => exact absurd (List.cons.inj hsnd).1 (by decide)
      | cons d u =>
        obtain ⟨rfl, -⟩ := List.cons.inj hsnd
        exact ⟨u ++ ['\x7b'] ++ (trimEnd names ++ added ++ ('\x7d' :: v ++ rest)), rfl⟩

/-- Icons that are merged behind the body leave the declaration where it is. -/
theorem exists_declaration_front (ha : Icons.findAnchor s t = some a)
    (hb : Entries.findAnchor s t = some b) (hn : ¬ a.stop ≤ b.start) (hle : b.stop ≤ a.start)
    (icons : List Text) :
    ∃ b', Entries.findAnchor s (a.replace (Icons.merged a icons)) = some b' ∧
      b'.span = b.span ∧ b'.indent = b.indent ∧
      (∀ body, b'.replace body = a.replaceBoth b (Icons.merged a icons) body) := by
  have hta := Icons.text_of_findAnchor ha
  have htb := Entries.text_of_findAnchor hb
  obtain ⟨m, hbefore, hdrop, hafter⟩ := Anchor.exists_between (htb.trans hta.symm) hle
  obtain ⟨front, head, names, tail, rest, ⟨hh, ht, _⟩, _, _, rfl⟩ :=
    Icons.findAnchor_eq_some_iff.1 ha
  obtain ⟨front', opening, body, rest', hd, _, rfl⟩ :=
    (Entries.findAnchor_iff_declares hs).1 hb
  obtain ⟨added, hmerged, _⟩ := Icons.merged_eq (a := ⟨.iconImport, front ++ head, names,
    tail ++ rest, Icons.entryIndent names⟩) (Icons.isBlank_entryIndent names) icons
  simp only [Anchor.replaceBoth, if_neg hn]
  generalize Icons.merged _ icons = names' at *
  dsimp only at hbefore hdrop hafter hmerged
  subst hmerged
  have hm : m = [] ∨ ∃ u, m = u ++ ['\x7b'] := by
    obtain ⟨w, rfl, _⟩ := hh.eq_concat
    rcases List.eq_nil_or_concat m with rfl | ⟨u, c, rfl⟩
    · exact .inl rfl
    · rw [List.concat_eq_append, ← List.append_assoc, ← List.append_assoc] at hbefore
      obtain ⟨_, hc⟩ := List.append_inj' hbefore rfl
      exact .inr ⟨u, by rw [List.concat_eq_append, hc]⟩
  obtain ⟨back, hback⟩ := exists_close hm ht.eq_cons hafter.symm added
  refine ⟨⟨.listDeclaration, front' ++ opening, body, Entries.close ++ back, s.listIndent⟩, ?_, rfl,
    rfl, fun body' => ?_⟩
  · rw [← hd.findAnchor_eq hs back, Anchor.replace, hbefore, ← hback]
    simp only [List.append_assoc]
  · rw [Anchor.replace, hdrop, ← hback]
    simp only [List.append_assoc]

/-- Icons that are merged into a list apart from the body move the declaration with the text around
it, or come to stand at the start of a body that begins right behind the list. -/
theorem exists_declaration (ha : Icons.findAnchor s t = some a)
    (hb : Entries.findAnchor s t = some b) (hapart : a.Apart b) (hi : Identifiers icons) :
    ∃ shift b', Entries.findAnchor s (a.replace (Icons.merged a icons)) = some b' ∧
      b'.span = shift ++ b.span ∧ b'.indent = b.indent ∧
      (∀ body, b'.replace (shift ++ body) = a.replaceBoth b (Icons.merged a icons) body) ∧
      (shift = [] ∨ a.stop = b.start ∧ '/' ∉ shift ∧ ∃ u, b.span = '\x7d' :: u) := by
  by_cases hle : a.stop ≤ b.start
  · exact exists_declaration_behind hs ha hb hle hi
  · obtain ⟨b', hb', hspan, hindent, hreplace⟩ :=
      exists_declaration_front hs ha hb hle (hapart.resolve_left hle) icons
    exact ⟨[], b', hb', hspan, hindent, hreplace, .inl rfl⟩

end

/-! ## Adding entries behind icons -/

/-- No comment and no end of a text begins in front of a brace. -/
theorem Entries.not_dead {x u : Text} (hx : '/' ∉ x) : ¬ Entries.Dead (x ++ '\x7d' :: u) := by
  rintro ⟨gap, comment, h, hgap, hcomment⟩
  have hbrace : '\x7d' ∉ gap := notMem_of_isBlank hgap rfl
  rcases List.append_eq_append_iff.1 h with ⟨z, rfl, hz⟩ | ⟨z, rfl, hz⟩
  · cases z with
    | nil => rcases hcomment with rfl | ⟨w, rfl⟩ <;> cases hz
    | cons c z => exact hbrace ((List.cons.inj hz).1 ▸ List.mem_append_right x List.mem_cons_self)
  · rcases hcomment with rfl | ⟨w, rfl⟩
    · cases z <;> cases hz
    · cases z with
      | nil => cases hz
      | cons c z => exact hx ((List.cons.inj hz).1 ▸ List.mem_append_right gap List.mem_cons_self)

/-- What comes to stand in front of a body stays in front of it when entries are added. -/
theorem Entries.exists_grown {shift body : Text}
    (h : shift = [] ∨ '/' ∉ shift ∧ ∃ u, body = '\x7d' :: u) (indent : Text)
    (entries : List Text) :
    ∃ body', Entries.grown (shift ++ body) indent entries = shift ++ body' ∧
      Entries.Extends indent body entries body' := by
  rcases h with rfl | ⟨hshift, u, rfl⟩
  · exact ⟨_, rfl, Entries.grown_extends indent body entries⟩
  · have hall := Entries.grown_extends indent (shift ++ '\x7d' :: u) entries
    generalize Entries.grown _ indent entries = new at *
    cases hall with
    | same he => exact ⟨_, rfl, .same he⟩
    | added hkept hdead hcomma hgap hends =>
      obtain ⟨z, hz⟩ : ['\x7d'] <+: trimEnd ('\x7d' :: u) := prefix_trimEnd ⟨[], '\x7d', rfl, rfl⟩ u
      rw [trimEnd_append (by rw [← hz]; simp)] at hkept
      rcases List.append_eq_append_iff.1 hkept with ⟨w, rfl, hw⟩ | ⟨w, rfl, rfl⟩
      · exact ⟨_, by simp only [List.append_assoc], .added hw hdead hcomma hgap hends⟩
      · -- the brace would stand in what is no code
        rw [← hz] at hdead
        exact absurd hdead
          (Entries.not_dead fun hm => hshift (List.mem_append_right _ hm))

end Graft.Splice
