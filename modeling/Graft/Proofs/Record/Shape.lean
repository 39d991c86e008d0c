import Graft.Proofs.Text.Piece
import Graft.Record.Metadata

/-!
# The shapes that metadata is found by

A shape says what a text shows if it begins with it.  Metadata is what a snippet shows at the
leftmost place at which it has the shape, and is absent where it has the shape nowhere.

* `matches_componentAt?` and its like: a matcher answers exactly what its shape shows;
* `finds_of_matches`: looked for from the left, such a matcher finds the leftmost place;
* `extraction_leftmost`: so do the four kinds of metadata, and a path is read back from the forms in
  which routes and entries show it.
-/

namespace Graft.Text

/-- A word begins or ends here: one of the two characters around the place belongs to a word, and
the other does not or is absent. -/
def AtBoundary (before : Option Char) (t : Text) : Prop := before.any isWord ≠ t.head?.any isWord

/-- One identifier, from its first to its last character. -/
def IsIdent (name : Text) : Prop :=
  ∃ c u, name = c :: u ∧ isIdentStart c = true ∧ ∀ d ∈ u, isIdentRest d = true

theorem beforeWord_eq (before : Option Char) : beforeWord before = !before.any isWord := by
  cases before <;> rfl

/-- In front of a word character a boundary is the beginning of a word. -/
theorem atBoundary_cons {c : Char} (hc : isWord c = true) (before : Option Char) (t : Text) :
    AtBoundary before (c :: t) ↔ beforeWord before = true := by
  rw [AtBoundary, beforeWord_eq, List.head?_cons, Option.any_some, hc]
  cases before.any isWord <;> simp

/-- Behind a word character a boundary is the end of a word. -/
theorem atBoundary_some {c : Char} (hc : isWord c = true) (t : Text) :
    AtBoundary (some c) t ↔ afterWord t = true := by
  rw [AtBoundary, afterWord, beforeWord_eq, Option.any_some, hc]
  cases t.head?.any isWord <;> simp

theorem IsIdent.identifier {name : Text} (h : IsIdent name) : Identifier name := by
  obtain ⟨c, u, rfl, hc, hu⟩ := h
  exact ⟨List.cons_ne_nil c u, List.forall_mem_cons.2 ⟨isIdentRest_of_isIdentStart hc, hu⟩⟩

theorem IsIdent.stops_isSpace {name : Text} (h : IsIdent name) (t : Text) :
    Stops isSpace (name ++ t) := by
  obtain ⟨c, u, rfl, hc, -⟩ := h
  exact stops_cons.2 (isSpace_eq_false_of_isIdentRest (isIdentRest_of_isIdentStart hc))

theorem stops_isIdentRest_blank {gap : Text} (hne : gap ≠ []) (hg : isBlank gap) (t : Text) :
    Stops isIdentRest (gap ++ t) := by
  obtain ⟨c, u, rfl⟩ := List.exists_cons_of_ne_nil hne
  have hc : isSpace c = true := List.all_eq_true.1 hg c List.mem_cons_self
  refine stops_cons.2 (Bool.eq_false_iff.2 fun hrest => ?_)
  rw [isSpace_eq_false_of_isIdentRest hrest] at hc
  cases hc

end Graft.Text

namespace Graft.Metadata

open Text

/-- What a text shows if it begins with a shape, behind a character or at the start. -/
abbrev Shape := Option Char → Text → Text → Prop

/-! ## The four shapes -/

/-- `import`, an identifier and `from`, with blanks between them. -/
def ImportShape : Shape := fun before t name =>
  AtBoundary before t ∧ IsIdent name ∧ ∃ gap gap' rest, gap ≠ [] ∧ isBlank gap ∧ gap' ≠ [] ∧
    isBlank gap' ∧ AtBoundary (some 'm') rest ∧
      t = "import".toList ++ (gap ++ (name ++ (gap' ++ ("from".toList ++ rest))))

/-- A `path` attribute with a value in double quotes. -/
def AttributeShape : Shape := fun before t path =>
  AtBoundary before t ∧ path ≠ [] ∧ '"' ∉ path ∧
    ∃ rest, t = "path=\"".toList ++ (path ++ '"' :: rest)

/-- A `path` key with a value in quotes of either kind. -/
def KeyShape : Shape := fun before t path =>
  AtBoundary before t ∧ path ≠ [] ∧ (∀ c ∈ path, ¬ IsMark c) ∧
    ∃ gap q q' rest, isBlank gap ∧ IsMark q ∧ IsMark q' ∧
      t = "path:".toList ++ (gap ++ q :: (path ++ q' :: rest))

/-- An `icon` key with an identifier, as long as it goes. -/
def IconShape : Shape := fun before t name =>
  AtBoundary before t ∧ IsIdent name ∧
    ∃ gap rest, isBlank gap ∧ Stops isIdentRest rest ∧ t = "icon:".toList ++ (gap ++ (name ++ rest))

/-- A matcher answers exactly what the shape shows. -/
def Matches (m : Option Char → Text → Option Text) (S : Shape) : Prop :=
  ∀ before t token, m before t = some token ↔ S before t token

theorem matches_componentAt? : Matches componentAt? ImportShape := by
  intro before t name
  simp only [componentAt?, Option.bind_eq_bind, Option.bind_none, Option.bind_eq_some_iff,
    Prod.exists, Option.ite_none_right_eq_some, Option.some.injEq]
  constructor
  · rintro ⟨hb, t₁, h₁, t₂, h₂, _, t₃, h₃, t₄, h₄, hafter, rfl⟩
    obtain ⟨gap, hne, hg, -, rfl⟩ := skipSpaces?_eq_some_iff.1 h₂
    obtain ⟨c, u, rfl, hc, hu, -, rfl⟩ := ident?_eq_some_iff.1 h₃
    obtain ⟨gap', hne', hg', rfl⟩ := (skipApart?_eq_some_iff (firm_of_head? rfl)).1 h₄
    rw [skip?_eq_some_iff] at h₁
    subst h₁
    refine ⟨(atBoundary_cons rfl _ _).2 hb, ⟨c, u, rfl, hc, hu⟩, gap, gap', t₄, hne, hg, hne', hg',
      (atBoundary_some rfl _).2 hafter, ?_⟩
    simp only [List.append_assoc]
  · rintro ⟨hb, hname, gap, gap', rest, hne, hg, hne', hg', hafter, rfl⟩
    have hfrom : skipApart? "from".toList (gap' ++ ("from".toList ++ rest)) = some rest :=
      (skipApart?_eq_some_iff (firm_of_head? rfl)).2
        ⟨gap', hne', hg', (List.append_assoc _ _ rest).symm⟩
    have hends := stops_isIdentRest_blank hne' hg' ("from".toList ++ rest)
    generalize gap' ++ ("from".toList ++ rest) = back at *
    have hspaces : skipSpaces? (gap ++ (name ++ back)) = some (name ++ back) :=
      skipSpaces?_eq_some_iff.2 ⟨gap, hne, hg, hname.stops_isSpace back, rfl⟩
    obtain ⟨c, u, rfl, hc, hu⟩ := hname
    have hident : ident? (c :: u ++ back) = some (c :: u, back) :=
      ident?_eq_some_iff.2 ⟨c, u, rfl, hc, hu, hends, rfl⟩
    exact ⟨(atBoundary_cons rfl _ _).1 hb, _, skip?_eq_some_iff.2 rfl, _, hspaces, _, _, hident,
      _, hfrom, (atBoundary_some rfl _).1 hafter, rfl⟩

theorem matches_routePathAt? : Matches routePathAt? AttributeShape := by
  intro before t path
  simp only [routePathAt?, Option.bind_eq_bind, Option.bind_none, Option.bind_eq_some_iff,
    Option.ite_none_right_eq_some, Option.ite_none_left_eq_some, Option.some.injEq]
  constructor
  · rintro ⟨hb, t₁, h₁, rest, h₂, hne, rfl⟩
    rw [skip?_eq_some_iff] at h₁ h₂
    have hcut : t₁.takeWhile (· != '"') ++ t₁.dropWhile (· != '"') = t₁ :=
      List.takeWhile_append_dropWhile
    rw [h₂] at hcut
    rw [h₁]
    refine ⟨(atBoundary_cons rfl _ _).2 hb, by simpa using hne, fun hq => ?_, rest, ?_⟩
    · simpa using List.all_eq_true.1 List.all_takeWhile _ hq
    · exact congrArg _ hcut.symm
  · rintro ⟨hb, hne, hq, rest, rfl⟩
    obtain ⟨htake, hdrop⟩ := takeWhile_append_of_stops (p := (· != '"')) (b := '"' :: rest)
      (fun c hc => bne_iff_ne.2 fun he => hq (he ▸ hc)) (stops_cons.2 rfl)
    refine ⟨(atBoundary_cons rfl _ _).1 hb, _, skip?_eq_some_iff.2 rfl, rest, ?_, ?_, htake⟩
    · rw [hdrop]
      exact skip?_eq_some_iff.2 rfl
    · rw [htake]
      simpa using hne

theorem matches_entryPathAt? : Matches entryPathAt? KeyShape := by
  have hmark : ∀ c : Char, (c != '"' && c != '\'') = true ↔ ¬ IsMark c := by
    intro c
    simp [IsMark]
  intro before t path
  simp only [entryPathAt?, Option.bind_eq_bind, Option.bind_none, Option.bind_eq_some_iff,
    Option.ite_none_right_eq_some, Option.ite_none_left_eq_some, Option.some.injEq]
  constructor
  · rintro ⟨hb, t₁, h₁, t₂, h₂, rest, h₃, hne, rfl⟩
    obtain ⟨gap, q, hg, hq, rfl⟩ := skipQuote?_trimStart_eq_some_iff.1 h₂
    obtain ⟨q', hq', hback⟩ := skipQuote?_eq_some_iff_mark.1 h₃
    have hcut : unquoted t₂ ++ fromQuote t₂ = t₂ := List.takeWhile_append_dropWhile
    rw [hback] at hcut
    rw [skip?_eq_some_iff] at h₁
    subst h₁
    refine ⟨(atBoundary_cons rfl _ _).2 hb, by simpa using hne, fun c hc => ?_, gap, q, q', rest,
      hg, hq, hq', ?_⟩
    · exact (hmark c).1 (List.all_eq_true.1 List.all_takeWhile c hc)
    · rw [hcut]
  · rintro ⟨hb, hne, hpath, gap, q, q', rest, hg, hq, hq', rfl⟩
    have hstop : Stops (fun c => c != '"' && c != '\'') (q' :: rest) :=
      stops_cons.2 (Bool.eq_false_iff.2 fun h => (hmark q').1 h hq')
    obtain ⟨htake, -⟩ := takeWhile_append_of_stops (fun c hc => (hmark c).2 (hpath c hc)) hstop
    have hvalue : unquoted (path ++ q' :: rest) = path := htake
    refine ⟨(atBoundary_cons rfl _ _).1 hb, _, skip?_eq_some_iff.2 rfl, _,
      skipQuote?_trimStart_eq_some_iff.2 ⟨gap, q, hg, hq, rfl⟩, rest,
      skipQuote?_fromQuote_eq_some_iff.2 ⟨path, q', hpath, hq', rfl⟩, ?_, hvalue⟩
    rw [hvalue]
    simpa using hne

theorem matches_iconAt? : Matches iconAt? IconShape := by
  intro before t name
  simp only [iconAt?, Option.bind_eq_bind, Option.bind_none, Option.bind_eq_some_iff, Prod.exists,
    Option.ite_none_right_eq_some, Option.some.injEq]
  constructor
  · rintro ⟨hb, t₁, h₁, _, rest, h₂, rfl⟩
    obtain ⟨c, u, rfl, hc, hu, hstop, hrest⟩ := ident?_eq_some_iff.1 h₂
    rw [skip?_eq_some_iff] at h₁
    have hcut : t₁.takeWhile isSpace ++ trimStart t₁ = t₁ := List.takeWhile_append_dropWhile
    rw [h₁]
    refine ⟨(atBoundary_cons rfl _ _).2 hb, ⟨c, u, rfl, hc, hu⟩, t₁.takeWhile isSpace, rest,
      List.all_takeWhile, hstop, ?_⟩
    rw [← hrest, hcut]
  · rintro ⟨hb, hname, gap, rest, hg, hstop, rfl⟩
    have htrim : trimStart (gap ++ (name ++ rest)) = name ++ rest :=
      (takeWhile_append_of_stops (List.all_eq_true.1 hg) (hname.stops_isSpace rest)).2
    obtain ⟨c, u, rfl, hc, hu⟩ := hname
    refine ⟨(atBoundary_cons rfl _ _).1 hb, _, skip?_eq_some_iff.2 rfl, _, rest, ?_, rfl⟩
    rw [htrim]
    exact ident?_eq_some_iff.2 ⟨c, u, rfl, hc, hu, hstop, rfl⟩

/-! ## The leftmost place -/

/-- The text shows `token` at the leftmost place at which it has the shape. -/
def FirstShown (S : Shape) (t token : Text) : Prop :=
  ∃ front rest, t = front ++ rest ∧ S front.getLast? rest token ∧
    ∀ p q other, front = p ++ q → q ≠ [] → ¬ S p.getLast? (q ++ rest) other

/-- The text has the shape at some place. -/
def Shows (S : Shape) (t : Text) : Prop :=
  ∃ front rest token, t = front ++ rest ∧ S front.getLast? rest token

/-- What is looked for is what a text shows at the leftmost place with the shape, and is absent
exactly where there is none. -/
structure Finds (find? : Text → Option Text) (S : Shape) : Prop where
  some_iff : ∀ t token, find? t = some token ↔ FirstShown S t token
  none_iff : ∀ t, find? t = none ↔ ¬ Shows S t

theorem finds_of_matches {m : Option Char → Text → Option Text} {S : Shape} (h : Matches m S) :
    Finds (first? m) S where
  some_iff := by
    intro t token
    have hnone : ∀ before t, m before t = none ↔ ∀ other, ¬ S before t other := by
      intro before t
      rw [Option.eq_none_iff_forall_ne_some]
      exact forall_congr' fun other => not_congr (h before t other)
    rw [first?, Option.map_eq_some_iff]
    constructor
    · rintro ⟨⟨front, _⟩, hfound, rfl⟩
      obtain ⟨rest, rfl, hm, hfirst⟩ := leftmost_eq_some_iff_at.1 hfound
      simp only [Option.or_none] at hm hfirst
      exact ⟨front, rest, rfl, (h _ _ _).1 hm, fun p q other hpq hq =>
        (hnone _ _).1 (hfirst p q hpq hq) other⟩
    · rintro ⟨front, rest, rfl, hshape, hfirst⟩
      refine ⟨(front, token), leftmost_eq_some_iff_at.2 ⟨rest, rfl, ?_, fun p q hpq hq => ?_⟩, rfl⟩
      · rw [Option.or_none]
        exact (h _ _ _).2 hshape
      · rw [Option.or_none]
        exact (hnone _ _).2 fun other => hfirst p q other hpq hq
  none_iff := by
    intro t
    rw [first?, Option.map_eq_none_iff, leftmost_eq_none_iff]
    simp only [Option.or_none]
    constructor
    · rintro hnone ⟨front, rest, token, ht, hshape⟩
      have hm := (h _ _ _).2 hshape
      rw [hnone front rest ht] at hm
      cases hm
    · intro hnowhere p q hpq
      refine Option.eq_none_iff_forall_ne_some.2 fun token hm => hnowhere ?_
      exact ⟨p, q, token, hpq, (h _ _ _).1 hm⟩

/-- What a text begins with is found first. -/
theorem FirstShown.of_start {S : Shape} {t token : Text} (h : S none t token) :
    FirstShown S t token := by
  refine ⟨[], t, rfl, h, fun p q _ hpq hq => ?_⟩
  exact absurd (List.append_eq_nil_iff.1 hpq.symm).2 hq

/-! ## Metadata -/

theorem routeAttribute_eq (path : Text) :
    routeAttribute path = ['p', 'a', 't', 'h', '=', '"'] ++ path ++ ['"'] := by
  delta routeAttribute
  simp

theorem FirstShown.contains_routeAttribute {t path : Text}
    (h : FirstShown AttributeShape t path) : contains (routeAttribute path) t := by
  obtain ⟨front, _, rfl, ⟨-, -, -, rest, rfl⟩, -⟩ := h
  refine contains_iff.2 ⟨front, rest, ?_⟩
  rw [routeAttribute_eq]
  simp

/-- Components, paths and icons are what a snippet shows at the leftmost place with their shape, and
absent exactly where there is none; a path is read back from the attribute and from both keys that
show it, and a route shows the attribute of the path that is found in it. -/
theorem extraction_leftmost :
    Finds component? ImportShape ∧ Finds routePath? AttributeShape ∧ Finds entryPath? KeyShape ∧
      Finds icon? IconShape ∧
      (∀ path, path ≠ [] → '"' ∉ path → routePath? (routeAttribute path) = some path) ∧
      (∀ path, path ≠ [] → '"' ∉ path → '\'' ∉ path →
        ∀ key ∈ entryKeys path, entryPath? key = some path) ∧
      ∀ t path, routePath? t = some path → contains (routeAttribute path) t := by
  have hroute := finds_of_matches matches_routePathAt?
  have hentry := finds_of_matches matches_entryPathAt?
  refine ⟨finds_of_matches matches_componentAt?, hroute, hentry, finds_of_matches matches_iconAt?,
    fun path hne hq => ?_, fun path hne hdouble hsingle key hkey => ?_,
    fun t path h => ((hroute.some_iff t path).1 h).contains_routeAttribute⟩
  · refine (hroute.some_iff _ _).2 (.of_start ⟨(atBoundary_cons rfl _ _).2 rfl, hne, hq, [], ?_⟩)
    rw [routeAttribute_eq]
    simp
  · have hmark : ∀ c ∈ path, ¬ IsMark c := by
      rintro c hc (rfl | rfl)
      · exact hdouble hc
      · exact hsingle hc
    have hshown : ∀ q, IsMark q →
        FirstShown KeyShape ("path: ".toList ++ [q] ++ path ++ [q]) path := by
      intro q hq
      apply FirstShown.of_start
      exact ⟨(atBoundary_cons rfl _ _).2 rfl, hne, hmark, [' '], q, q, [], rfl, hq, hq, by simp⟩
    unfold entryKeys at hkey
    simp only [List.mem_cons, List.not_mem_nil, or_false] at hkey
    rcases hkey with rfl | rfl
    · exact (hentry.some_iff _ _).2 (hshown '"' (.inl rfl))
    · exact (hentry.some_iff _ _).2 (hshown '\'' (.inr rfl))

/-- Behind words that end in `path`, an empty value and one that is not closed, the value that
counts is found; and a path with a blank and a quote of the other kind is read back. -/
theorem extraction_leftmost_near :
    FirstShown AttributeShape "<A xpath=\"/x\" path=\"\" path=\"/y\" />".toList "/y".toList ∧
      routePath? (routeAttribute "/a 'b'".toList) = some "/a 'b'".toList ∧
      (∀ key ∈ entryKeys "/a b".toList, entryPath? key = some "/a b".toList) ∧
      contains (routeAttribute "/y".toList) "<A xpath=\"/x\" path=\"\" path=\"/y\" />".toList := by
  have hfound : routePath? "<A xpath=\"/x\" path=\"\" path=\"/y\" />".toList =
      some "/y".toList := by decide +kernel
  obtain ⟨-, hroute, -, -, hattribute, hkeys, hshows⟩ := extraction_leftmost
  exact ⟨(hroute.some_iff _ _).1 hfound, hattribute _ (by decide) (by decide),
    hkeys _ (by decide) (by decide) (by decide), hshows _ _ hfound⟩

end Graft.Metadata
