import Graft.Proofs.Splice.Entries
import Graft.Proofs.Splice.Icons

/-!
# Listings that keep their anchors

A listing is ready when the first import of the icon library ends before the first declaration of
the typed array begins.

* `ListingReady.exists_listing`, `Listing.ready`: a listing is ready exactly when it can be cut in
  five parts, of which the first four declare nothing;
* `Listing.merge`: merging icons changes the names alone;
* `Listing.extend`: adding entries changes what follows the import alone.
-/

namespace Graft.Splice

open Text

/-- What follows the icon library's import, with its semicolon if it has one, with which the text
begins. -/
def Icons.afterImport? (library t : Text) : Option Text := do
  let (_, t) ← Icons.nameList? library t
  let t ← skip? ['\x7d'] t
  let t ← skipSpaced? "from".toList t
  let t ← skipQuote? (trimStart t)
  let t ← skip? library t
  let t ← skipQuote? t
  some (skipSemicolon t)

/-- The first import of the icon library ends before the first declaration of the array begins. -/
def ListingReady (s : AnchorSettings) (t : Text) : Prop :=
  ∃ front rest skipped found,
    leftmost (fun _ => Icons.afterImport? s.iconLibrary) none t = some (front, rest) ∧
    leftmost (fun _ => Entries.body? s.listName s.listType) none t = some (skipped, found) ∧
    t.length - rest.length ≤ skipped.length

/-- Whether a text is ready, by looking for both. -/
def listingReady? (s : AnchorSettings) (t : Text) : Bool :=
  match leftmost (fun _ => Icons.afterImport? s.iconLibrary) none t,
    leftmost (fun _ => Entries.body? s.listName s.listType) none t with
  | some (_, rest), some (skipped, _) => t.length - rest.length ≤ skipped.length
  | _, _ => false

theorem listingReady?_iff {s : AnchorSettings} {t : Text} :
    listingReady? s t ↔ ListingReady s t := by
  unfold listingReady?
  constructor
  · intro h
    split at h
    · rename_i front rest skipped found hi hd
      exact ⟨front, rest, skipped, found, hi, hd, by simpa using h⟩
    · cases h
  · rintro ⟨front, rest, skipped, found, hi, hd, hle⟩
    rw [hi, hd]
    exact decide_eq_true hle

instance (s : AnchorSettings) (t : Text) : Decidable (ListingReady s t) :=
  decidable_of_iff _ listingReady?_iff

/-- The words in the settings do not get in the way of the punctuation around them. -/
structure Plain (s : AnchorSettings) : Prop where
  library : '\x7b' ∉ s.iconLibrary
  name : Firm s.listName
  type : Firm s.listType
  words : ∀ c ∈ Entries.marks, c ∉ s.listName ∧ c ∉ s.listType

theorem plain_default : Plain {} where
  library := by decide +kernel
  name := firm_of_head? rfl
  type := firm_of_head? rfl
  words := forall_mem_of_all rfl

/-- The semicolon that ends a statement, and that no other semicolon can be taken for. -/
def Ends (semi rest : Text) : Prop := semi = [';'] ∨ semi = [] ∧ rest.head? ≠ some ';'

theorem ends_skipSemicolon (t : Text) :
    ∃ semi, t = semi ++ skipSemicolon t ∧ Ends semi (skipSemicolon t) := by
  unfold skipSemicolon
  split
  · exact ⟨[';'], rfl, .inl rfl⟩
  · rename_i hne
    refine ⟨[], rfl, .inr ⟨rfl, fun h => ?_⟩⟩
    cases t with
    | nil => cases h
    | cons c t =>
      obtain rfl := Option.some.inj h
      exact hne t rfl

theorem Ends.skipSemicolon {semi rest : Text} (h : Ends semi rest) :
    skipSemicolon (semi ++ rest) = rest := by
  rcases h with rfl | ⟨rfl, hr⟩
  · rfl
  · cases rest with
    | nil => rfl
    | cons c rest =>
      unfold Text.skipSemicolon
      split
      · rename_i heq
        obtain ⟨rfl, _⟩ := List.cons.inj heq
        exact absurd rfl hr
      · rfl

theorem Icons.afterImport?_eq_some_iff {library t rest : Text} :
    Icons.afterImport? library t = some rest ↔
      ∃ head names tail semi, Icons.IsHead head ∧ Icons.IsTail library tail ∧ '\x7d' ∉ names ∧
        Ends semi rest ∧ t = head ++ names ++ (tail ++ (semi ++ rest)) := by
  simp only [afterImport?, Option.bind_eq_bind, Option.bind_eq_some_iff, Prod.exists,
    skip?_eq_some_iff, skipSpaced?_eq_some_iff Icons.firm_from,
    skipQuote?_trimStart_eq_some_iff]
  simp only [skipQuote?_eq_some_iff_mark, Option.some.injEq]
  constructor
  · rintro ⟨names, _, hl, _, rfl, _, ⟨g, hg, rfl⟩, _, ⟨g', q, hg', hq, rfl⟩, _, rfl, r,
      ⟨q', hq', rfl⟩, rfl⟩
    obtain ⟨head, _, _, hh, _, hn, _, rfl⟩ := Icons.nameList?_eq_some_iff.1 hl
    obtain ⟨semi, hsemi, hends⟩ := ends_skipSemicolon r
    refine ⟨head, names, _, semi, hh, ⟨g, g', q, q', hg, hg', hq, hq', rfl⟩, hn, hends, ?_⟩
    rw [← hsemi]
    simp
  · rintro ⟨head, names, tail, semi, hh, ht, hn, hends, rfl⟩
    have hl := Icons.nameList?_eq_some_iff.2 ⟨head, tail, semi ++ rest, hh, ht, hn, rfl, rfl⟩
    obtain ⟨g, g', q, q', hg, hg', hq, hq', rfl⟩ := ht
    refine ⟨names, _, hl, g ++ "from".toList ++ (g' ++ q :: (library ++ q' :: (semi ++ rest))),
      by simp, _, ⟨g, hg, rfl⟩, _, ⟨g', q, hg', hq, rfl⟩, _, rfl, _, ⟨q', hq', rfl⟩,
      hends.skipSemicolon⟩

theorem Icons.isSome_afterImport?_iff {library t : Text} :
    (Icons.afterImport? library t).isSome ↔ (Icons.nameList? library t).isSome := by
  constructor
  · intro h
    obtain ⟨rest, hr⟩ := Option.isSome_iff_exists.1 h
    obtain ⟨head, names, tail, semi, hh, ht, hn, _, rfl⟩ := Icons.afterImport?_eq_some_iff.1 hr
    exact Icons.isSome_nameList? hh ht hn
  · intro h
    obtain ⟨⟨names, after⟩, hl⟩ := Option.isSome_iff_exists.1 h
    obtain ⟨head, tail, rest, hh, ht, hn, rfl, rfl⟩ := Icons.nameList?_eq_some_iff.1 hl
    obtain ⟨semi, hsemi, hends⟩ := ends_skipSemicolon rest
    refine Option.isSome_iff_exists.2 ⟨skipSemicolon rest, ?_⟩
    exact Icons.afterImport?_eq_some_iff.2
      ⟨head, names, tail, semi, hh, ht, hn, hends, by rw [← hsemi]⟩

/-- A listing cut in front of the icon library's first import, behind the brace that opens its list
of names, in front of the brace that closes it, and behind its end; only what follows it declares
the array. -/
structure Listing (s : AnchorSettings) (front head names tail rest : Text) : Prop where
  opens : Icons.IsHead head
  unclosed : '\x7d' ∉ names
  closes : ∃ w semi, Icons.IsTail s.iconLibrary w ∧ Ends semi rest ∧ tail = w ++ semi
  first : ∀ p q, front = p ++ q → q ≠ [] →
    Icons.nameList? s.iconLibrary (q ++ (head ++ names ++ (tail ++ rest))) = none
  undeclared : ∀ opening, Entries.IsOpening s.listName s.listType opening →
    contains opening (front ++ (head ++ names ++ tail)) = false
  declared : ∃ a opening b, Entries.IsOpening s.listName s.listType opening ∧
    contains Entries.close b ∧ rest = a ++ (opening ++ b)

section
variable {s : AnchorSettings} (hs : Plain s) {front head names tail rest : Text}

include hs in
theorem opening_notMem {opening : Text} (ho : Entries.IsOpening s.listName s.listType opening)
    {c : Char} (hc : c ∈ Entries.marks) : c ∉ opening :=
  ho.notMem hc (hs.words c hc).1 (hs.words c hc).2

/-- The import ends with a character that no declaration has. -/
theorem Listing.exists_last (h : Listing s front head names tail rest) :
    ∃ u c, tail = u ++ [c] ∧ c ∈ Entries.marks := by
  obtain ⟨w, semi, ⟨g, g', q, q', _, _, _, hq', rfl⟩, rfl | ⟨rfl, _⟩, rfl⟩ := h.closes
  · exact ⟨_, ';', rfl, by decide⟩
  · refine ⟨'\x7d' :: (g ++ "from".toList ++ g' ++ q :: s.iconLibrary), q', by simp, ?_⟩
    rcases hq' with rfl | rfl
    · decide
    · decide

include hs in
/-- A declaration that begins in the first four parts lies in them, so that there is none. -/
theorem Listing.body?_eq_none (h : Listing s front head names tail rest) {p q : Text}
    (hpq : front ++ (head ++ names ++ tail) = p ++ q) (hq : q ≠ []) :
    Entries.body? s.listName s.listType (q ++ rest) = none := by
  refine Option.not_isSome_iff_eq_none.1 fun hb => ?_
  obtain ⟨opening, b, ho, _, heq⟩ := (Entries.isSome_body?_iff hs.name hs.type).1 hb
  have hprefix : opening <+: q ++ rest := ⟨b, heq.symm⟩
  rcases straddles_of_prefix hq hprefix with hin | hcross
  · have hc : contains opening (front ++ (head ++ names ++ tail)) := by
      rw [hpq, contains_iff_isInfix]
      exact hin.isInfix.trans (List.suffix_append p q).isInfix
    rw [h.undeclared opening ho] at hc
    cases hc
  · obtain ⟨u, c, rfl, hc⟩ := h.exists_last
    refine not_straddles_of_notMem_left (a := front ++ (head ++ names ++ u)) (c := c)
      (opening_notMem hs ho hc) (hcross.of_suffix ⟨p, ?_⟩)
    rw [← hpq]
    simp only [List.append_assoc]

include hs in
/-- The first declaration begins behind the import. -/
theorem Listing.exists_body? (h : Listing s front head names tail rest) :
    ∃ a found, leftmost (fun _ => Entries.body? s.listName s.listType) none
      (front ++ (head ++ names ++ tail) ++ rest) =
        some (front ++ (head ++ names ++ tail) ++ a, found) := by
  obtain ⟨a, opening, b, ho, hb, hrest⟩ := h.declared
  have hsome : (leftmost (fun _ => Entries.body? s.listName s.listType) none
      (front ++ (head ++ names ++ tail) ++ a ++ (opening ++ b))).isSome :=
    leftmost_isSome ((Entries.isSome_body?_iff hs.name hs.type).2 ⟨opening, b, ho, hb, rfl⟩)
  rw [List.append_assoc _ a, ← hrest] at hsome
  obtain ⟨⟨skipped, found⟩, hl⟩ := Option.isSome_iff_exists.1 hsome
  obtain ⟨t, heq, hm, _⟩ := leftmost_eq_some_iff.1 hl
  rw [hl]
  rcases List.append_eq_append_iff.1 heq with ⟨d, rfl, _⟩ | ⟨q, hX, hrest'⟩
  · exact ⟨d, found, rfl⟩
  · by_cases hq : q = []
    · subst hq
      exact ⟨[], found, by rw [hX]; simp⟩
    · rw [hrest', h.body?_eq_none hs hX hq] at hm
      cases hm

include hs in
theorem ListingReady.exists_listing {t : Text} (h : ListingReady s t) :
    ∃ front head names tail rest,
      Listing s front head names tail rest ∧ t = front ++ (head ++ names ++ tail) ++ rest := by
  obtain ⟨front, rest, skipped, found, hi, hd, hle⟩ := h
  obtain ⟨t', rfl, hm, hfirst⟩ := leftmost_eq_some_iff.1 hi
  obtain ⟨head, names, w, semi, hh, hw, hn, hends, rfl⟩ := Icons.afterImport?_eq_some_iff.1 hm
  obtain ⟨t'', heq, hm', hfirst'⟩ := leftmost_eq_some_iff.1 hd
  have hcut : front ++ (head ++ names ++ (w ++ (semi ++ rest))) =
      front ++ (head ++ names ++ (w ++ semi)) ++ rest := by
    simp only [List.append_assoc]
  rw [hcut] at heq hle
  have hprefix : front ++ (head ++ names ++ (w ++ semi)) <+: skipped := by
    refine List.prefix_of_prefix_length_le ⟨rest, rfl⟩ ⟨t'', heq.symm⟩ ?_
    have hlen : ∀ X : Text, (X ++ rest).length - rest.length = X.length := by simp
    rwa [hlen] at hle
  obtain ⟨a, rfl⟩ := hprefix
  rw [List.append_assoc _ a] at heq
  obtain rfl := List.append_cancel_left heq
  obtain ⟨opening, b, ho, hb, rfl⟩ :=
    (Entries.isSome_body?_iff hs.name hs.type).1 (by rw [hm']; rfl)
  refine ⟨front, head, names, w ++ semi, a ++ (opening ++ b), ⟨hh, hn, ⟨w, semi, hw, hends, rfl⟩,
    fun p q hpq hq => ?_, fun o ho' => ?_, ⟨a, opening, b, ho, hb, rfl⟩⟩, hcut⟩
  · rw [← Option.not_isSome_iff_eq_none, ← Icons.isSome_afterImport?_iff]
    rw [List.append_assoc w, hfirst p q hpq hq]
    exact Bool.false_ne_true
  · -- a declaration in front of what follows the import would have been the first one
    refine Bool.eq_false_iff.2 fun hc => ?_
    obtain ⟨p, q, hpq⟩ := contains_iff.1 hc
    have hclose : contains Entries.close (q ++ a ++ (opening ++ b)) :=
      contains_append_right _ (contains_append_right _ hb)
    have hsome := (Entries.isSome_body?_iff hs.name hs.type).2 ⟨o, _, ho', hclose, rfl⟩
    have hne : o ++ (q ++ a) ≠ [] := by
      obtain ⟨u, rfl⟩ := ho'.eq_concat
      simp
    have hnone := hfirst' p (o ++ (q ++ a)) (by rw [hpq]; simp only [List.append_assoc]) hne
    rw [← List.append_assoc o, hnone] at hsome
    cases hsome

include hs in
theorem Listing.ready (h : Listing s front head names tail rest) :
    ListingReady s (front ++ (head ++ names ++ tail) ++ rest) := by
  obtain ⟨a, found, hl⟩ := h.exists_body? hs
  obtain ⟨w, semi, hw, hends, rfl⟩ := h.closes
  refine ⟨front, rest, _, found, leftmost_eq_some_iff.2
    ⟨head ++ names ++ (w ++ (semi ++ rest)), ?_, ?_, fun p q hpq hq => ?_⟩, hl, ?_⟩
  · simp only [List.append_assoc]
  · exact Icons.afterImport?_eq_some_iff.2
      ⟨head, names, w, semi, h.opens, hw, h.unclosed, hends, rfl⟩
  · have hnone := h.first p q hpq hq
    rw [List.append_assoc w] at hnone
    rw [← Option.not_isSome_iff_eq_none, Icons.isSome_afterImport?_iff, hnone]
    exact Bool.false_ne_true
  · simp only [List.length_append]
    omega

/-- The anchor for icons is the list of names. -/
theorem Listing.exists_iconAnchor (h : Listing s front head names tail rest) :
    ∃ a, Icons.findAnchor s (front ++ (head ++ names ++ tail) ++ rest) = some a ∧
      a.before = front ++ head ∧ a.span = names ∧ a.after = tail ++ rest ∧
      a.indent = Icons.entryIndent names := by
  obtain ⟨w, semi, hw, hends, rfl⟩ := h.closes
  refine ⟨_, Icons.findAnchor_eq_some_iff.2 ⟨front, head, names, w, semi ++ rest,
    ⟨h.opens, hw, h.unclosed⟩, ?_, fun p q hpq hq => ?_, rfl⟩, rfl, rfl, ?_, rfl⟩
  · simp only [List.append_assoc]
  · rw [← List.append_assoc w]
    exact h.first p q hpq hq
  · exact (List.append_assoc w semi rest).symm

include hs in
/-- No import begins in front of the first one, whatever its names are and whatever follows it. -/
theorem Listing.first_transfer (h : Listing s front head names tail rest) (names' rest' : Text)
    {p q : Text} (hpq : front = p ++ q) (hq : q ≠ []) :
    Icons.nameList? s.iconLibrary (q ++ (head ++ names' ++ (tail ++ rest'))) = none := by
  refine Option.not_isSome_iff_eq_none.1 fun hsome => ?_
  obtain ⟨w, semi, hw, _, rfl⟩ := h.closes
  obtain ⟨u, hu, _⟩ := h.opens.eq_concat
  have hnew : (Icons.nameList? s.iconLibrary
      (q ++ head ++ names' ++ (w ++ (semi ++ rest')))).isSome := by
    simpa using hsome
  have hold : (Icons.nameList? s.iconLibrary
      (q ++ head ++ names ++ (w ++ (semi ++ rest)))).isSome :=
    Icons.isSome_nameList?_transfer hs.library ⟨q ++ u, by rw [hu, List.append_assoc]⟩ h.unclosed
      hw hnew
  have hnone := h.first p q hpq hq
  simp only [List.append_assoc] at hold hnone
  rw [hnone] at hold
  cases hold

include hs in
/-- The names may be replaced by others that bring in no declaration. -/
theorem Listing.replace_names (h : Listing s front head names tail rest) {names' : Text}
    (hclosed : '\x7d' ∉ names')
    (hopening : ∀ opening, Entries.IsOpening s.listName s.listType opening →
      contains opening names' → contains opening names) :
    Listing s front head names' tail rest := by
  refine ⟨h.opens, hclosed, h.closes, fun _ _ => h.first_transfer hs names' rest, ?_, h.declared⟩
  intro o ho
  refine Bool.eq_false_iff.2 fun hc => ?_
  have hold := h.undeclared o ho
  obtain ⟨u, hu, _⟩ := h.opens.eq_concat
  obtain ⟨w, semi, hw, _, rfl⟩ := h.closes
  obtain ⟨v, hv⟩ := hw.eq_cons
  -- the declaration lies across neither brace
  have hopen : ∀ b, ¬ Straddles o (front ++ head) b := by
    intro b
    rw [hu, ← List.append_assoc]
    exact not_straddles_of_notMem_left (opening_notMem hs ho (by decide))
  have hclose : ¬ Straddles o names' (w ++ semi) := by
    rw [hv]
    exact not_straddles_of_notMem_right (opening_notMem hs ho (by decide))
  rw [List.append_assoc head, ← List.append_assoc front] at hc hold
  rw [← Bool.not_eq_true] at hold
  rcases contains_append_iff.1 hc with hc | hc | hc
  · exact hold (contains_append_left hc _)
  · rcases contains_append_iff.1 hc with hc | hc | hc
    · exact hold (contains_append_right _ (contains_append_left (hopening o ho hc) _))
    · exact hold (contains_append_right _ (contains_append_right names hc))
    · exact hclose hc
  · exact hopen _ hc

include hs in
/-- Merging icons changes the names alone. -/
theorem Listing.merge (h : Listing s front head names tail rest) {snippets : List Text}
    (hicons : ∀ icon ∈ snippets, '[' ∉ icon ∧ '\x7d' ∉ icon) :
    ∃ a names', Icons.findAnchor s (front ++ (head ++ names ++ tail) ++ rest) = some a ∧
      (Icons.splice a snippets).text = front ++ (head ++ names' ++ tail) ++ rest ∧
      Listing s front head names' tail rest := by
  obtain ⟨a, ha, hbefore, hspan, hafter, hindent⟩ := h.exists_iconAnchor
  have hblank : isBlank a.indent := hindent ▸ Icons.isBlank_entryIndent _
  have hbracket : ¬ Icons.IsGlue '[' := by unfold Icons.IsGlue; decide
  have hbrace : ¬ Icons.IsGlue '\x7d' := by unfold Icons.IsGlue; decide
  refine ⟨a, Icons.merged a snippets, ha, ?_, h.replace_names hs ?_ fun o ho hc => ?_⟩
  · rw [Icons.splice_text, Anchor.replace, hbefore, hafter]
    simp only [List.append_assoc]
  · exact Icons.notMem_merged hblank hbrace (fun i hi => (hicons i hi).2) (hspan ▸ h.unclosed)
  · obtain ⟨u, rfl⟩ := ho.eq_concat
    rw [← hspan]
    exact Icons.contains_of_contains_merged hblank hbracket (fun i hi => (hicons i hi).1) hc

include hs in
/-- What follows the import may be replaced if it still begins with a declaration. -/
theorem Listing.replace_body (h : Listing s front head names tail rest) {a opening b b' : Text}
    (hrest : rest = a ++ (opening ++ b)) (ho : Entries.IsOpening s.listName s.listType opening)
    (hb : contains Entries.close b') : Listing s front head names tail (a ++ (opening ++ b')) := by
  subst hrest
  have hhead : (a ++ (opening ++ b')).head? = (a ++ (opening ++ b)).head? := by
    obtain ⟨u, rfl⟩ := ho.eq_concat
    simp [← List.append_assoc]
  refine ⟨h.opens, h.unclosed, ?_, fun _ _ => h.first_transfer hs names _, h.undeclared,
    ⟨a, opening, b', ho, hb, rfl⟩⟩
  obtain ⟨w, semi, hw, hends, ht⟩ := h.closes
  exact ⟨w, semi, hw, hends.imp_right fun hr => ⟨hr.1, hhead ▸ hr.2⟩, ht⟩

include hs in
/-- Adding entries changes what follows the import alone. -/
theorem Listing.extend (h : Listing s front head names tail rest) (snippets : List Text) :
    ∃ a rest', Entries.findAnchor s (front ++ (head ++ names ++ tail) ++ rest) = some a ∧
      (Entries.splice a snippets).text = front ++ (head ++ names ++ tail) ++ rest' ∧
      Listing s front head names tail rest' := by
  obtain ⟨x, ⟨body, after⟩, hl⟩ := h.exists_body? hs
  obtain ⟨t, heq, hm, hfirst⟩ := leftmost_eq_some_iff.1 hl
  obtain ⟨opening, r, ho, rfl, hcut, rfl⟩ := (Entries.body?_eq_some_iff hs.name hs.type).1 hm
  rw [List.append_assoc _ x] at heq
  have hrest := List.append_cancel_left heq
  refine ⟨_, x ++ (opening ++ (Entries.extended body (Entries.block s.listIndent snippets) ++
    (Entries.close ++ r))), (Entries.findAnchor_eq_some_iff hs.name hs.type).2
    ⟨_, opening, body, r, ho, ?_, hcut, hfirst, rfl⟩, ?_, h.replace_body hs hrest ho ?_⟩
  · rw [hrest, List.append_assoc _ x]
  · simp only [Entries.splice_text, List.append_assoc]
  · exact contains_append_right _ (contains_append_left (contains_iff_isInfix.2 List.infix_rfl) r)

end

end Graft.Splice
