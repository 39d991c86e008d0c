import Graft.Proofs.Document.Unwrap

/-!
# Documents in prose and fences

A document that stands in prose, between the lines of a code fence or among stray backticks is what
`unwrap` leaves, character by character, if its start and its end are the ones that are looked for.

* `unfence_wrapped`: taking off fences, blanks and backticks does not cut into the document;
* `fromStart_declaration`, `fromStart_module`: nothing in front of it is left;
* `toEnd_wrapped`: nothing behind it is;
* `unwrap_wrapped`: the document is left, and left alone when it is unwrapped again.
-/

namespace Graft.Text

/-! ## Words that a character keeps out -/

theorem startsWith_append_cons_iff {w : Text} {c : Char} (hc : c ∉ w) (a b : Text) :
    startsWith w (a ++ c :: b) ↔ startsWith w a := by
  rw [startsWith_iff_isPrefix, startsWith_iff_isPrefix]
  constructor
  · intro h
    by_cases ha : a = []
    · subst ha
      cases w with
      | nil => exact List.nil_prefix
      | cons d w =>
        obtain ⟨rfl, -⟩ := List.cons_prefix_cons.1 h
        exact absurd List.mem_cons_self hc
    · have hcases := straddles_of_prefix ha h
      exact hcases.resolve_right (not_straddles_of_notMem_right hc)
  · exact fun h => h.trans (List.prefix_append a _)

theorem contains_singleton_iff {c : Char} {t : Text} : contains [c] t ↔ c ∈ t := by
  rw [contains_iff_isInfix, List.singleton_infix_iff]

end Graft.Text

namespace Graft.Document

open Text

/-! ## Where a document stands -/

/-- The line of `a ++ b` on which the place between `a` and `b` lies. -/
def lineAt (a b : Text) : Text := lastLine a ++ (splitLine b).1

/-- Whether a line begins, behind blanks, with the mark of a code fence. -/
def isFenceLine (line : Text) : Bool := startsWith fence (trimStart line)

/-- The document begins where its start is looked for: with the first declaration, or, where there
is none, with the first tag of a module. -/
def BeginsFirst (before doc behind : Text) : Prop :=
  (startsWith declarationOpen doc ∧ contains declarationOpen before = false) ∨
    ((moduleTag? doc).isSome ∧ contains declarationOpen before = false ∧
      contains declarationOpen doc = false ∧ contains declarationOpen behind = false ∧
      fromFirst? moduleTag? before = none)

/-- The document begins and ends where that is looked for, and on no line of a code fence. -/
structure Wrapped (before doc behind name : Text) : Prop where
  start : BeginsFirst before doc behind
  root : rootName? doc = some name
  closing : closingTag name <:+ doc
  last : contains (closingTag name) behind = false
  /-- The line on which the document begins does not open a fence. -/
  opens : isFenceLine (lineAt before (doc ++ behind)) = false
  /-- The line on which it ends does not close one. -/
  closes : isFenceLine (lineAt (before ++ doc) behind) = false

section
variable {before doc behind name : Text}

theorem BeginsFirst.exists_cons (h : BeginsFirst before doc behind) : ∃ u, doc = '<' :: u := by
  rcases h with ⟨hdecl, -⟩ | ⟨hmodule, -⟩
  · obtain ⟨v, rfl⟩ := startsWith_iff_isPrefix.1 hdecl
    exact ⟨_, rfl⟩
  · obtain ⟨r, hr⟩ := Option.isSome_iff_exists.1 hmodule
    obtain ⟨-, c, u, rfl, -⟩ := moduleTag?_eq_some_iff.1 hr
    exact ⟨_, rfl⟩

theorem Wrapped.tagged (h : Wrapped before doc behind name) : Tagged doc where
  first := h.start.exists_cons
  last := by
    obtain ⟨v, hv⟩ := h.closing
    exact ⟨v ++ ("</".toList ++ name), by rw [List.append_assoc]; exact hv.symm⟩

/-- What follows a tag's first or last character does not tell whether a line is one of a fence. -/
theorem isFenceLine_append_cons {c : Char} (hs : isSpace c = false) (hc : c ∉ fence)
    (a b : Text) : isFenceLine (a ++ c :: b) = isFenceLine a := by
  have hstart : trimStart (a ++ c :: b) = trimStart a ++ c :: b :=
    dropWhile_append_of_head ⟨c, b, rfl, hs⟩ a
  rw [Bool.eq_iff_iff, isFenceLine, isFenceLine, hstart, startsWith_append_cons_iff hc]

theorem isFenceLine_lineAt_open {u : Text} (a b : Text) :
    isFenceLine (lineAt a ('<' :: u ++ b)) = isFenceLine (lastLine a) := by
  have hline : (splitLine ('<' :: u ++ b)).1 = '<' :: (splitLine (u ++ b)).1 := rfl
  rw [lineAt, hline, isFenceLine_append_cons rfl (by decide)]

theorem isFenceLine_lineAt_close {v : Text} (a b : Text) :
    isFenceLine (lineAt (a ++ (v ++ ['>'])) b) = isFenceLine (lastLine (a ++ v)) := by
  rw [lineAt, ← List.append_assoc, lastLine_append_of_notMem (by decide), List.append_assoc,
    List.singleton_append, isFenceLine_append_cons rfl (by decide)]

/-- A wrapped document is also wrapped in nothing. -/
theorem Wrapped.alone (h : Wrapped before doc behind name) : Wrapped [] doc [] name where
  start := by
    rcases h.start with ⟨hdecl, -⟩ | ⟨hmodule, -, hdoc, -, -⟩
    · exact .inl ⟨hdecl, rfl⟩
    · exact .inr ⟨hmodule, rfl, hdoc, rfl, rfl⟩
  root := h.root
  closing := h.closing
  last := rfl
  opens := by
    obtain ⟨u, rfl⟩ := h.tagged.first
    exact isFenceLine_lineAt_open [] []
  closes := by
    have hcloses := h.closes
    obtain ⟨u, hu⟩ := h.tagged.first
    obtain ⟨v, rfl⟩ := h.tagged.last
    rw [isFenceLine_lineAt_close] at hcloses ⊢
    rw [List.nil_append]
    by_cases hn : '\n' ∈ v
    · rwa [lastLine_append_of_mem hn] at hcloses
    · -- the document is on one line, which begins with its tag
      rw [lastLine_of_oneLine hn]
      cases v with
      | nil => rfl
      | cons c v =>
        obtain ⟨rfl, -⟩ := List.cons.inj hu
        exact isFenceLine_append_cons (a := []) rfl (by decide) v

/-! ## Fences, blanks and backticks -/

/-- A first line that opens a fence ends in front of the document. -/
theorem dropFenceLine_wrapped {x e : Text} (he : Tagged e)
    (hx : startsWith fence x → '\n' ∈ x) (y : Text) :
    ∃ x', dropFenceLine (x ++ (e ++ y)) = x' ++ (e ++ y) ∧ x' <:+ x := by
  obtain ⟨u, rfl⟩ := he.first
  have hopen : startsWith fence (x ++ ('<' :: u ++ y)) ↔ startsWith fence x :=
    startsWith_append_cons_iff (by decide) x (u ++ y)
  by_cases hfence : startsWith fence x
  · obtain ⟨⟨front, rest⟩, hcut⟩ := Option.isSome_iff_exists.1 (contains_singleton_iff.2 (hx hfence))
    refine ⟨rest, ?_, _, (cut?_eq_append hcut).symm⟩
    rw [dropFenceLine, if_pos (hopen.2 hfence), cut?_append_of_some hcut]
  · exact ⟨x, by rw [dropFenceLine, if_neg (mt hopen.1 hfence)], List.suffix_rfl⟩

theorem isBlank_lastLine {t : Text} (h : isBlank t) : isBlank (lastLine t) := by
  rw [← beforeLastLine_append_lastLine t, isBlank, List.all_append, Bool.and_eq_true] at h
  exact h.2

/-- A fence that a text begins with is on a line of its own, unless the text ends on the line of a
fence. -/
theorem newline_mem_of_fence (h : isFenceLine (lastLine before) = false)
    (hfence : startsWith fence (trimStart before)) : '\n' ∈ trimStart before := by
  by_contra hn
  have hcut : before = before.takeWhile isSpace ++ trimStart before :=
    List.takeWhile_append_dropWhile.symm
  have hgap : isBlank (lastLine (before.takeWhile isSpace)) :=
    isBlank_lastLine List.all_takeWhile
  rw [hcut, lastLine_append_of_notMem hn, isFenceLine, trimStart_blank_append hgap, trimStart,
    trimStart, List.dropWhile_idempotent] at h
  exact Bool.eq_false_iff.1 h hfence

theorem trimEnd_append_of_last {a : Text} (ha : ∃ u c, a = u ++ [c] ∧ isSpace c = false)
    (y : Text) : trimEnd (a ++ y) = a ++ trimEnd y := by
  obtain ⟨u, c, rfl, hc⟩ := ha
  have hrev : ((u ++ [c]) ++ y).reverse = y.reverse ++ c :: u.reverse := by simp
  rw [trimEnd, hrev, dropWhile_append_of_head ⟨c, u.reverse, rfl, hc⟩, trimEnd]
  simp

/-- A last line that closes a fence begins behind the document. -/
theorem dropClosingFence_wrapped {x v : Text}
    (hx : '\n' ∈ x ++ v → isFenceLine (lastLine (x ++ v)) = false) (y : Text) :
    ∃ y', dropClosingFence (x ++ (v ++ ['>'] ++ y)) = x ++ (v ++ ['>'] ++ y') ∧ y' <+: y := by
  have htrim : trimEnd (x ++ (v ++ ['>'] ++ y)) = (x ++ v ++ ['>']) ++ trimEnd y := by
    rw [← List.append_assoc, ← List.append_assoc]
    exact trimEnd_append_of_last ⟨x ++ v, '>', rfl, rfl⟩ y
  rw [dropClosingFence, htrim]
  by_cases hn : '\n' ∈ trimEnd y
  · obtain ⟨⟨body, line⟩, hcut⟩ : ∃ p, lastCut? ['\n'] (trimEnd y) = some p := by
      refine Option.ne_none_iff_exists'.1 fun hnone => ?_
      rw [lastCut?_eq_none_iff, contains_singleton_iff.2 hn] at hnone
      cases hnone
    rw [lastCut?_append_of_some hcut]
    dsimp only
    split
    · refine ⟨body, by simp only [List.append_assoc], ?_⟩
      refine List.IsPrefix.trans ?_ <| trimEnd_prefix y
      exact ⟨['\n'] ++ line, by rw [← List.append_assoc]; exact (lastCut?_eq_append hcut).symm⟩
    · exact ⟨y, rfl, List.prefix_rfl⟩
  · -- the document ends on the last line, which therefore is none of a fence
    refine ⟨y, ?_, List.prefix_rfl⟩
    split
    · rename_i body line hcut
      have hline := lastLine_of_lastCut? hcut
      have hmem : '\n' ∈ x ++ v := by
        have hin : '\n' ∈ (x ++ v ++ ['>']) ++ trimEnd y := by
          rw [lastCut?_eq_append hcut]
          simp
        simpa [hn] using hin
      rw [lastLine_append_of_notMem hn, lastLine_append_of_notMem (by decide)] at hline
      have hfree : isFenceLine line = false := by
        rw [← hline, List.append_assoc, List.singleton_append,
          isFenceLine_append_cons rfl (by decide)]
        exact hx hmem
      refine if_neg fun hfence => Bool.eq_false_iff.1 hfree ?_
      rw [isFenceLine, startsWith_iff_isPrefix]
      exact (startsWith_iff_isPrefix.1 hfence).trans <| trimEnd_prefix _
    · rfl

/-- Taking off fences, blanks and backticks does not cut into the document. -/
theorem unfence_wrapped (h : Wrapped before doc behind name) :
    ∃ x y, unfence (before ++ (doc ++ behind)) = x ++ (doc ++ y) ∧ x <:+ before ∧ y <+: behind := by
  have he := h.tagged
  have hopens := h.opens
  have hcloses := h.closes
  obtain ⟨u, hu⟩ := he.first
  obtain ⟨v, hv⟩ := he.last
  have hbehind : ∀ (p : Char → Bool) (y : Text), (y.reverse.dropWhile p).reverse <+: y :=
    fun p y => List.reverse_suffix.1 ((List.reverse_reverse _).symm ▸ List.dropWhile_suffix p)
  have htrim : ∀ {p : Char → Bool}, p '<' = false → p '>' = false → ∀ x y,
      trimBoth p (x ++ (doc ++ y)) = x.dropWhile p ++ (doc ++ (y.reverse.dropWhile p).reverse) :=
    fun hfirst hlast => trimBoth_append he hfirst hlast
  have hfront : startsWith fence (trimStart before) → '\n' ∈ trimStart before := by
    rw [hu, isFenceLine_lineAt_open] at hopens
    exact newline_mem_of_fence hopens
  obtain ⟨x₁, hx₁, hsuffix⟩ :=
    dropFenceLine_wrapped he hfront (behind.reverse.dropWhile isSpace).reverse
  have hback : '\n' ∈ x₁ ++ v → isFenceLine (lastLine (x₁ ++ v)) = false := by
    intro hn
    obtain ⟨p, hp⟩ := hsuffix.trans (trimStart_suffix before)
    rw [hv, isFenceLine_lineAt_close, ← hp, List.append_assoc, lastLine_append_of_mem hn] at hcloses
    exact hcloses
  obtain ⟨y₁, hy₁, hfollows⟩ :=
    dropClosingFence_wrapped hback (behind.reverse.dropWhile isSpace).reverse
  rw [← hv] at hy₁
  rw [unfence, trim_eq_trimBoth (before ++ _), htrim (by decide) (by decide)]
  rw [← trimStart, hx₁, hy₁]
  simp only [trim_eq_trimBoth]
  rw [htrim (by decide) (by decide), htrim (by decide) (by decide), htrim (by decide) (by decide)]
  refine ⟨_, _, rfl, ?_, ?_⟩
  · exact (List.dropWhile_suffix _).trans ((List.dropWhile_suffix _).trans
      ((List.dropWhile_suffix _).trans (hsuffix.trans (trimStart_suffix before))))
  · exact (hbehind _ _).trans ((hbehind _ _).trans ((hbehind _ _).trans
      (hfollows.trans (hbehind _ _))))

/-! ## The start -/

theorem not_contains_of_part {w a b : Text} (h : a <:+: b) (hb : contains w b = false) :
    contains w a = false := by
  refine Bool.eq_false_iff.2 fun ha => Bool.eq_false_iff.1 hb ?_
  exact contains_iff_isInfix.2 ((contains_iff_isInfix.1 ha).trans h)

theorem fromStart_declaration (hdecl : startsWith declarationOpen doc)
    (hfree : contains declarationOpen before = false) (y : Text) :
    fromStart (before ++ (doc ++ y)) = doc ++ y := by
  obtain ⟨v, rfl⟩ := startsWith_iff_isPrefix.1 hdecl
  have hopen : declarationOpen = '<' :: "?xml".toList := rfl
  have hfirst : fromFirst? declarationTag? (before ++ (declarationOpen ++ v ++ y)) =
      some (declarationOpen ++ v ++ y) := by
    refine fromFirst?_eq_some ?_ fun p q hpq hq => declarationTag?_eq_none ?_
    · rw [List.append_assoc]
      exact if_pos (startsWith_append _ _)
    · refine Bool.eq_false_iff.2 fun hs => Bool.eq_false_iff.1 hfree ?_
      rcases straddles_of_prefix hq (startsWith_iff_isPrefix.1 hs) with hin | hacross
      · rw [hpq]
        exact contains_append_right p (contains_iff_isInfix.2 hin.isInfix)
      · exact absurd hacross (not_straddles_of_head (by decide) q ("?xml".toList ++ v ++ y))
  rw [fromStart, hfirst]
  rfl

theorem fromStart_module (hmodule : (moduleTag? doc).isSome)
    (hfree : fromFirst? moduleTag? before = none) {y : Text}
    (hdecl : contains declarationOpen (before ++ (doc ++ y)) = false) :
    fromStart (before ++ (doc ++ y)) = doc ++ y := by
  obtain ⟨r, hr⟩ := Option.isSome_iff_exists.1 hmodule
  obtain ⟨-, c, u, rfl, hc⟩ := moduleTag?_eq_some_iff.1 hr
  have hfirst : fromFirst? moduleTag? (before ++ (moduleOpen ++ c :: u ++ y)) =
      some (moduleOpen ++ c :: u ++ y) := by
    refine fromFirst?_eq_some (moduleTag?_eq_some_iff.2 ⟨rfl, c, u ++ y, by simp, hc⟩) ?_
    intro p q hpq hq
    refine Option.eq_none_iff_forall_ne_some.2 fun r hr => ?_
    obtain ⟨-, d, v, heq, hd⟩ := moduleTag?_eq_some_iff.1 hr
    have hname : '<' ∉ "module".toList ++ [d] := by
      intro hm
      rcases List.mem_append.1 hm with hm | hm
      · exact absurd hm (by decide)
      · obtain rfl := List.mem_singleton.1 hm
        exact absurd hd (by decide)
    have htag : moduleOpen ++ [d] <+: q ++ (moduleOpen ++ c :: u ++ y) := ⟨v, by rw [heq]; simp⟩
    rcases straddles_of_prefix hq htag with ⟨w, hin⟩ | hacross
    · have hnone := fromFirst?_eq_none_iff.1 hfree q ⟨p, hpq.symm⟩
      rw [moduleTag?_eq_some_iff.2 ⟨rfl, d, w, by rw [← hin]; simp, hd⟩] at hnone
      cases hnone
    · exact not_straddles_of_head hname q ("module".toList ++ c :: u ++ y) hacross
  rw [fromStart, fromFirst?_declarationTag?_eq_none hdecl, Option.none_or, hfirst]
  rfl

/-- The document is the first that is found, whatever is left in front of it and behind it. -/
theorem fromStart_wrapped (h : Wrapped before doc behind name) {x y : Text} (hx : x <:+ before)
    (hy : y <+: behind) : fromStart (x ++ (doc ++ y)) = doc ++ y := by
  rcases h.start with ⟨hdecl, hfree⟩ | ⟨hmodule, hb, hd, hs, hfree⟩
  · exact fromStart_declaration hdecl (not_contains_of_part hx.isInfix hfree) y
  · refine fromStart_module hmodule ?_ ?_
    · exact fromFirst?_eq_none_iff.2 fun q hq =>
        fromFirst?_eq_none_iff.1 hfree q (hq.trans hx)
    · obtain ⟨u, hu⟩ := h.tagged.first
      have hfront : ¬ Straddles declarationOpen x (doc ++ y) := by
        rw [hu]
        exact not_straddles_of_head (u := "?xml".toList) (by decide) x (u ++ y)
      have hbehind : ¬ Straddles declarationOpen doc y := by
        obtain ⟨v, hv⟩ := h.tagged.last
        rw [hv]
        exact not_straddles_of_notMem_left (by decide)
      rw [← Bool.not_eq_true, contains_append_iff, contains_append_iff, hd,
        not_contains_of_part hx.isInfix hb, not_contains_of_part hy.isInfix hs]
      simp [hfront, hbehind]

/-! ## The end -/

theorem anyTag?_eq_none_of_prefix {a b : Text} (h : a <+: b) (hb : anyTag? b = none) :
    anyTag? a = none := by
  obtain ⟨v, rfl⟩ := h
  refine Option.eq_none_iff_forall_ne_some.2 fun r hr => ?_
  obtain ⟨-, c, u, rfl, hc⟩ := anyTag?_eq_some_iff.1 hr
  have hsome : anyTag? ('<' :: c :: u ++ v) = some _ :=
    anyTag?_eq_some_iff.2 ⟨rfl, c, u ++ v, rfl, hc⟩
  rw [hsome] at hb
  cases hb

/-- The first tag of a text is the first whatever follows the text. -/
theorem fromFirst?_anyTag?_append {t tag : Text} (h : fromFirst? anyTag? t = some tag) (y : Text) :
    fromFirst? anyTag? (t ++ y) = some (tag ++ y) ∧
      ∃ p c u, t = p ++ tag ∧ tag = '<' :: c :: u ∧ beginsTagName c = true := by
  obtain ⟨⟨p, r⟩, hl, hr⟩ := Option.map_eq_some_iff.1 h
  obtain rfl : r = tag := hr
  obtain ⟨rest, rfl, hm, hfirst⟩ := leftmost_eq_some_iff.1 hl
  obtain ⟨rfl, c, u, rfl, hc⟩ := anyTag?_eq_some_iff.1 hm
  refine ⟨?_, p, c, u, rfl, rfl, hc⟩
  rw [List.append_assoc]
  refine fromFirst?_eq_some (anyTag?_eq_some_iff.2 ⟨rfl, c, u ++ y, rfl, hc⟩) fun p' q hpq hq => ?_
  have hnone : anyTag? q = none :=
    anyTag?_eq_none_of_prefix (List.prefix_append q _) (hfirst p' q hpq hq)
  exact anyTag?_append_eq_none hq hnone (c :: u ++ y)

theorem behindDeclaration?_append {t body : Text} (ht : ∃ v, t = v ++ ['>'])
    (h : behindDeclaration? t = some body) (y : Text) :
    behindDeclaration? (t ++ y) = some (body ++ y) ∧ body <:+ t := by
  rw [behindDeclaration?] at h
  split at h
  · rename_i hdecl
    obtain ⟨⟨front, rest⟩, hcut, hrest⟩ := Option.map_eq_some_iff.1 h
    obtain rfl : rest = body := hrest
    obtain ⟨v, hv⟩ := startsWith_iff_isPrefix.1 hdecl
    have hdecl' : startsWith declarationOpen (t ++ y) := by
      rw [← hv, List.append_assoc]
      exact startsWith_append _ _
    refine ⟨?_, _, (cut?_eq_append hcut).symm⟩
    rw [behindDeclaration?, if_pos hdecl', cut?_append_of_some hcut]
    rfl
  · rename_i hdecl
    obtain rfl := Option.some.inj h
    refine ⟨if_neg fun hs => hdecl ?_, List.suffix_rfl⟩
    obtain ⟨v, rfl⟩ := ht
    rw [List.append_assoc, List.singleton_append, startsWith_append_cons_iff (by decide)] at hs
    obtain ⟨w, rfl⟩ := startsWith_iff_isPrefix.1 hs
    rw [List.append_assoc]
    exact startsWith_append _ _

/-- The name of the root does not depend on what follows a document that ends as a tag ends. -/
theorem rootName?_append {t name : Text} (ht : ∃ v, t = v ++ ['>']) (h : rootName? t = some name)
    (y : Text) : rootName? (t ++ y) = some name ∧ '>' ∉ name := by
  simp only [rootName?, Option.bind_eq_bind, Option.bind_eq_some_iff, Option.some.injEq] at h
  obtain ⟨body, hbody, tag, htag, rfl⟩ := h
  obtain ⟨hbody', hsuffix⟩ := behindDeclaration?_append ht hbody y
  obtain ⟨htag', p, c, u, rfl, rfl, hc⟩ := fromFirst?_anyTag?_append htag y
  refine ⟨?_, notMem_tagName ('<' :: c :: u)⟩
  have hlast : '>' ∈ c :: u := by
    obtain ⟨v, rfl⟩ := ht
    obtain ⟨w, hw⟩ := hsuffix
    have hl := congrArg List.getLast? hw
    rw [List.getLast?_concat, ← List.append_assoc, List.getLast?_append, List.getLast?_cons_cons,
      List.getLast?_eq_some_getLast (List.cons_ne_nil c u), Option.some_or] at hl
    exact List.mem_of_getLast? ((List.getLast?_eq_some_getLast (List.cons_ne_nil c u)).trans hl)
  rw [rootName?_eq hbody' htag', tagName]
  exact congrArg some (takeWhile_append_of_mem hlast rfl y)

theorem toEnd_wrapped (h : Wrapped before doc behind name) {y : Text} (hy : y <+: behind) :
    toEnd (doc ++ y) = doc := by
  obtain ⟨hname, hfree⟩ := rootName?_append h.tagged.last h.root y
  exact toEnd_closed h.tagged.last hname hfree h.closing
    (not_contains_of_part hy.isInfix h.last)

theorem unwrap_eq_of_wrapped (h : Wrapped before doc behind name) :
    unwrap (before ++ doc ++ behind) = doc := by
  obtain ⟨x, y, hcore, hx, hy⟩ := unfence_wrapped h
  rw [List.append_assoc, unwrap, hcore, fromStart_wrapped h hx hy, toEnd_wrapped h hy]
  exact trim_append_tagged (x := []) h.tagged rfl

/-- **A document is unwrapped exactly.**  What stands around a document that begins and ends where
that is looked for is taken off, prose, fences and backticks alike, and nothing else; and what is
left is left alone when it is unwrapped again. -/
theorem unwrap_wrapped (h : Wrapped before doc behind name) :
    unwrap (before ++ doc ++ behind) = doc ∧ unwrap doc = doc := by
  have halone := unwrap_eq_of_wrapped h.alone
  rw [List.nil_append, List.append_nil] at halone
  exact ⟨unwrap_eq_of_wrapped h, halone⟩

end

/-- A document in a fence, with prose inside the fence and behind it. -/
theorem unwrap_wrapped_fenced :
    let before := "```xml\nThe module `a`:\n".toList
    let doc := "<?xml version=\"1.0\"?>\n<module><slug>a</slug></module>".toList
    let behind := "`\n```\nIt has one </slug>.\n".toList
    Wrapped before doc behind "module".toList ∧ unwrap (before ++ doc ++ behind) = doc ∧
      unwrap doc = doc := by
  have h : Wrapped "```xml\nThe module `a`:\n".toList
      "<?xml version=\"1.0\"?>\n<module><slug>a</slug></module>".toList
      "`\n```\nIt has one </slug>.\n".toList "module".toList :=
    { start := .inl (by decide +kernel)
      root := by decide +kernel
      closing := ⟨"<?xml version=\"1.0\"?>\n<module><slug>a</slug>".toList, by decide +kernel⟩
      last := by decide +kernel
      opens := by decide +kernel
      closes := by decide +kernel }
  exact ⟨h, unwrap_wrapped h⟩

end Graft.Document
