import Graft.Proofs.Xml.Neat

/-!
# What the readers of tokens take

A reader takes the front of a text.  What it makes of that does not hang on what follows, but for a
name, which goes as far as it can.

* `upToText_eq_ok`, `comment_eq_ok`, `instruction_eq_ok`: pieces that end with a mark of their own;
* `qname_eq_ok`: a name;
* `rawAttribute_eq_ok`: an attribute;
* `declaration_eq_ok`: the XML declaration.
-/

namespace Graft.Xml

open Text

/-! ## Characters and words -/

theorem expectChar_eq_ok_iff {c : Char} {t rest : Text} :
    expectChar c t = .ok rest ↔ t = c :: rest := by
  cases t with
  | nil => exact ⟨fun h => (nomatch h), fun h => (nomatch h)⟩
  | cons d t =>
    simp only [expectChar]
    split
    · rename_i hd
      rw [hd, List.cons.injEq, and_iff_right rfl, Except.ok.injEq]
    · rename_i hd
      exact ⟨fun h => (nomatch h), fun h => absurd (List.cons.inj h).1 hd⟩

theorem expectText_eq_ok_iff {w t rest : Text} : expectText w t = .ok rest ↔ t = w ++ rest := by
  rw [expectText, ← skip?_eq_some_iff]
  cases skip? w t with
  | none => exact ⟨fun h => (nomatch h), fun h => (nomatch h)⟩
  | some r => rw [Except.ok.injEq, Option.some.injEq]

theorem checkChars_eq_ok_iff {run rest : Text} :
    checkChars run rest = .ok () ↔ run.all isXmlChar := by
  rw [checkChars]
  induction run with
  | nil => simp
  | cons c run ih =>
    by_cases hc : isXmlChar c
    · rw [List.dropWhile_cons_of_pos hc, List.all_cons, hc, Bool.true_and]
      exact ih
    · rw [List.dropWhile_cons_of_neg hc, List.all_cons, Bool.eq_false_iff.2 hc]
      exact ⟨fun h => (nomatch h), fun h => (nomatch h)⟩

/-! ## Up to a mark -/

/-- What a first occurrence ends is the same whatever follows it. -/
theorem cut?_behind {w t front rest : Text} (h : cut? w t = some (front, rest)) (z : Text) :
    cut? w (front ++ (w ++ z)) = some (front, z) := by
  obtain ⟨t', ht, hm, hfirst⟩ := leftmost_eq_some_iff.1 h
  obtain rfl := skip?_eq_some_iff.1 hm
  refine leftmost_eq_some_iff.2 ⟨w ++ z, rfl, skip?_eq_some_iff.2 rfl, fun p q hpq hq => ?_⟩
  have hnone := hfirst p q hpq hq
  rw [skip?_eq_none_iff] at hnone ⊢
  refine fun hp => hnone ?_
  have hin : w <+: q ++ w := by
    refine List.prefix_of_prefix_length_le hp ⟨z, by rw [List.append_assoc]⟩ ?_
    simp
  exact hin.trans ⟨rest, by rw [List.append_assoc]⟩

theorem upToText_eq_ok {w t run rest : Text} (h : upToText w t = .ok (run, rest)) :
    t = run ++ (w ++ rest) ∧ ∀ z, upToText w (run ++ (w ++ z)) = .ok (run, z) := by
  unfold upToText at h
  split at h
  · rename_i front back hcut
    obtain ⟨_, hchars, heq⟩ := bind_eq_ok_iff.1 h
    obtain ⟨rfl, rfl⟩ := Prod.mk.inj (Except.ok.inj heq)
    refine ⟨by rw [← List.append_assoc]; exact cut?_eq_append hcut, fun z => ?_⟩
    rw [upToText, cut?_behind hcut]
    exact bind_eq_ok_iff.2 ⟨_, checkChars_eq_ok_iff.2 (checkChars_eq_ok_iff.1 hchars), rfl⟩
  · obtain ⟨_, _, heq⟩ := bind_eq_ok_iff.1 h
    cases heq

/-- A comment is taken whatever follows. -/
theorem comment_eq_ok {t rest : Text} (h : comment ("<!--".toList ++ t) = .ok rest) :
    ∃ u, t = u ++ rest ∧ ∀ z, comment ("<!--".toList ++ (u ++ z)) = .ok z := by
  have hdrop : ∀ t : Text, ("<!--".toList ++ t).drop 4 = t := fun t => rfl
  rw [comment, hdrop] at h
  obtain ⟨⟨run, back⟩, hrun, h⟩ := bind_eq_ok_iff.1 h
  obtain ⟨rfl, htakes⟩ := upToText_eq_ok hrun
  dsimp only at h
  split at h
  · cases h
  · rename_i hhyphens
    obtain rfl := Except.ok.inj h
    refine ⟨run ++ "-->".toList, (List.append_assoc _ _ _).symm, fun z => ?_⟩
    rw [comment, hdrop, List.append_assoc, htakes z]
    exact if_neg hhyphens

/-- A character data section is taken whatever follows. -/
theorem characterData_eq_ok {t run rest : Text}
    (h : characterData ("<![CDATA[".toList ++ t) = .ok (run, rest)) :
    ∃ u, t = u ++ rest ∧ ∀ z, characterData ("<![CDATA[".toList ++ (u ++ z)) = .ok (run, z) := by
  have hdrop : ∀ t : Text, ("<![CDATA[".toList ++ t).drop 9 = t := fun t => rfl
  rw [characterData, hdrop] at h
  obtain ⟨⟨held, back⟩, hrun, heq⟩ := bind_eq_ok_iff.1 h
  obtain ⟨rfl, htakes⟩ := upToText_eq_ok hrun
  obtain ⟨rfl, rfl⟩ := Prod.mk.inj (Except.ok.inj heq)
  refine ⟨held ++ "]]>".toList, (List.append_assoc _ _ _).symm, fun z => ?_⟩
  rw [characterData, hdrop, List.append_assoc, htakes z]
  rfl

/-! ## Names -/

theorem stops_append {q : Char → Bool} {p : Text} (hp : p ≠ []) {z z' : Text}
    (h : Stops q (p ++ z)) : Stops q (p ++ z') := by
  obtain ⟨c, u, rfl⟩ := List.exists_cons_of_ne_nil hp
  exact stops_cons.2 (stops_cons.1 h)

/-- The characters of a name make a name of their own. -/
theorem isPlainName_of_qname {t rest : Text} {name : QName} (h : qname t = .ok (name, rest)) :
    isPlainName (t.takeWhile isNameChar) ∧ t.dropWhile isNameChar = rest := by
  unfold qname at h
  dsimp only at h
  split at h
  · split at h
    · rename_i hp
      exact ⟨hp, (Prod.mk.inj (Except.ok.inj h)).2⟩
    · cases h
  · rename_i c local' hcolon
    split at h
    · rename_i hp
      refine ⟨?_, (Prod.mk.inj (Except.ok.inj h)).2⟩
      simp only [Bool.and_eq_true, Bool.or_eq_true] at hp
      have hsplit := List.takeWhile_append_dropWhile (p := (· != ':')) (l := t.takeWhile isNameChar)
      rw [hcolon] at hsplit
      rw [← hsplit]
      rcases hp.1.1 with hempty | hfront
      · -- without a prefix, the name begins with the colon
        have hhead := List.head?_dropWhile_not (· != ':') (t.takeWhile isNameChar)
        rw [hcolon] at hhead
        obtain rfl : c = ':' := by simpa using hhead
        rw [List.isEmpty_iff.1 hempty]
        rfl
      · generalize (t.takeWhile isNameChar).takeWhile (· != ':') = front at hfront
        cases front with
        | nil => cases hfront
        | cons d front => exact hfront
    · cases h

/-- A name is taken whatever follows that does not go on with it. -/
theorem qname_eq_ok {t rest : Text} {name : QName} (h : qname t = .ok (name, rest)) :
    ∃ run, t = run ++ rest ∧ (∀ c ∈ run, isNameChar c = true) ∧ isPlainName run = true ∧
      Stops isNameChar rest ∧ ∀ z, Stops isNameChar z → qname (run ++ z) = .ok (name, z) := by
  have hrun : ∀ c ∈ t.takeWhile isNameChar, isNameChar c = true :=
    List.all_eq_true.1 List.all_takeWhile
  have hcut : t = t.takeWhile isNameChar ++ t.dropWhile isNameChar :=
    List.takeWhile_append_dropWhile.symm
  obtain ⟨hplain, hrest⟩ := isPlainName_of_qname h
  refine ⟨t.takeWhile isNameChar, hrest ▸ hcut, hrun, hplain, hrest ▸ stops_dropWhile _ _,
    fun z hz => ?_⟩
  obtain ⟨htake, hdrop⟩ := takeWhile_append_of_stops hrun hz
  rw [qname, htake, hdrop]
  unfold qname at h
  dsimp only at h ⊢
  split at h
  · rw [if_pos hplain] at h ⊢
    obtain ⟨rfl, -⟩ := Prod.mk.inj (Except.ok.inj h)
    rfl
  · split at h
    · obtain ⟨rfl, -⟩ := Prod.mk.inj (Except.ok.inj h)
      rename_i hp
      exact if_pos hp
    · cases h

theorem exists_of_isPlainName {t : Text} (h : isPlainName t = true) :
    ∃ c u, t = c :: u ∧ isNameStart c = true := by
  cases t with
  | nil => cases h
  | cons c u => exact ⟨c, u, rfl, h⟩

theorem isPlainName_append {p : Text} (hp : p ≠ []) (z z' : Text) :
    isPlainName (p ++ z) = isPlainName (p ++ z') := by
  obtain ⟨c, u, rfl⟩ := List.exists_cons_of_ne_nil hp
  rfl

/-! ## Processing instructions -/

theorem skipWhite_append {gap z : Text} (hg : ∀ c ∈ gap, isWhite c = true) (hz : Stops isWhite z) :
    skipWhite (gap ++ z) = z := (takeWhile_append_of_stops hg hz).2

theorem exists_skipWhite (t : Text) :
    ∃ gap, (∀ c ∈ gap, isWhite c = true) ∧ t = gap ++ skipWhite t ∧ Stops isWhite (skipWhite t) :=
  ⟨t.takeWhile isWhite, List.all_eq_true.1 List.all_takeWhile,
    List.takeWhile_append_dropWhile.symm, stops_dropWhile isWhite t⟩

/-- Whether a text begins with a word is settled by a character that the word lacks. -/
theorem startsWith_append_congr {w p : Text} {c : Char} (hw : c ∉ w) (hp : c ∈ p) (z z' : Text) :
    startsWith w (p ++ z) = startsWith w (p ++ z') := by
  have hin : ∀ z, startsWith w (p ++ z) ↔ w <+: p := by
    intro z
    rw [startsWith_iff_isPrefix]
    constructor
    · intro hwp
      rcases List.prefix_or_prefix_of_prefix hwp (List.prefix_append p z) with h | h
      · exact h
      · exact absurd (h.subset hp) hw
    · exact fun h => h.trans (List.prefix_append p z)
  rw [Bool.eq_iff_iff, hin, hin]

/-- The text holds the mark that ends a declaration or an instruction. -/
def Marked (u : Text) : Prop := contains "?>".toList u = true

theorem mark_eq : "?>".toList = ['?', '>'] := rfl

theorem Marked.append {u : Text} (h : Marked u) (p : Text) : Marked (p ++ u) :=
  contains_append_right p h

theorem Marked.mem {u : Text} (h : Marked u) : '?' ∈ u :=
  (contains_iff_isInfix.1 h).subset (by decide)

theorem instruction_eq_ok_iff {t rest : Text} :
    instruction ('<' :: '?' :: t) = .ok rest ↔
      startsWith "<?xml ".toList ('<' :: '?' :: t) = false ∧ isPlainName t = true ∧
        ∃ run, upToText "?>".toList (skipWhite (t.dropWhile isNameChar)) = .ok (run, rest) := by
  have hdrop : ('<' :: '?' :: t).drop 2 = t := rfl
  rw [instruction, hdrop]
  dsimp only
  split
  · rename_i h
    exact ⟨fun h' => (nomatch h'), fun h' => absurd h (Bool.eq_false_iff.1 h'.1)⟩
  · rename_i h
    split
    · rename_i hp
      rw [bind_eq_ok_iff, and_iff_right (Bool.eq_false_iff.2 h), and_iff_right hp]
      constructor
      · rintro ⟨⟨run, back⟩, hrun, heq⟩
        exact ⟨run, (Except.ok.inj heq) ▸ hrun⟩
      · rintro ⟨run, hrun⟩
        exact ⟨_, hrun, rfl⟩
    · rename_i hp
      exact ⟨fun h' => (nomatch h'), fun h' => absurd h'.2.1 hp⟩

/-- A processing instruction is taken whatever follows. -/
theorem instruction_eq_ok {t rest : Text} (h : instruction ('<' :: '?' :: t) = .ok rest) :
    ∃ u, t = u ++ rest ∧ Marked u ∧ ∀ z, instruction ('<' :: '?' :: (u ++ z)) = .ok z := by
  obtain ⟨hdecl, hplain, run, hrun⟩ := instruction_eq_ok_iff.1 h
  obtain ⟨hbehind, htakes⟩ := upToText_eq_ok hrun
  obtain ⟨gap, hgap, hcut, hstop⟩ := exists_skipWhite (t.dropWhile isNameChar)
  have hname : ∀ c ∈ t.takeWhile isNameChar, isNameChar c = true :=
    List.all_eq_true.1 List.all_takeWhile
  have hends := stops_dropWhile isNameChar t
  have ht : t.takeWhile isNameChar ++ t.dropWhile isNameChar = t :=
    List.takeWhile_append_dropWhile
  generalize t.takeWhile isNameChar = name at *
  have hne : run ++ "?>".toList ≠ [] := by simp [mark_eq]
  have hgne : gap ++ (run ++ "?>".toList) ≠ [] := by simp [mark_eq]
  have hall : ∀ z, name ++ (gap ++ (run ++ "?>".toList)) ++ z =
      name ++ (gap ++ (run ++ ("?>".toList ++ z))) := fun z => by simp only [List.append_assoc]
  rw [hcut, hbehind] at ht hends
  rw [hbehind] at hstop
  subst ht
  refine ⟨name ++ (gap ++ (run ++ "?>".toList)), (hall rest).symm, ?_, fun z => ?_⟩
  · exact contains_iff_isInfix.2 ⟨name ++ gap ++ run, [], by simp⟩
  · have hstop' : Stops isWhite (run ++ ("?>".toList ++ z)) := by
      rw [← List.append_assoc] at hstop ⊢
      exact stops_append hne hstop
    have hends' : Stops isNameChar (gap ++ (run ++ ("?>".toList ++ z))) := by
      rw [← List.append_assoc run, ← List.append_assoc] at hends ⊢
      exact stops_append hgne hends
    have hpne : name ++ (gap ++ (run ++ "?>".toList)) ≠ [] := by simp [mark_eq]
    rw [← hall] at hdecl hplain
    rw [instruction_eq_ok_iff]
    refine ⟨?_, ?_, run, ?_⟩
    · rw [← hdecl]
      exact startsWith_append_congr (p := '<' :: '?' :: (name ++ (gap ++ (run ++ "?>".toList))))
        (c := '>') (by decide) (by simp [mark_eq]) z rest
    · rw [← hplain, isPlainName_append hpne]
    · rw [hall, (takeWhile_append_of_stops hname hends').2, skipWhite_append hgap hstop']
      exact htakes z

/-! ## Attributes -/

theorem rawAttribute_eq_ok_iff {t rest : Text} {a : RawAttribute} :
    rawAttribute t = .ok (a, rest) ↔
      ∃ t₁ t₂ q t₃, qname t = .ok (a.name, t₁) ∧ skipWhite t₁ = '=' :: t₂ ∧
        skipWhite t₂ = q :: t₃ ∧ IsMark q ∧ a.value = t₃.takeWhile (fun c => c != q && c != '<') ∧
        a.behind = t₃.dropWhile (fun c => c != q && c != '<') ∧ a.value.all isXmlChar ∧
        a.behind = q :: rest := by
  rw [rawAttribute, bind_eq_ok_iff]
  constructor
  · rintro ⟨⟨name, t₁⟩, hname, h⟩
    obtain ⟨t₂, heq, h₂⟩ := bind_eq_ok_iff.1 h
    split at h₂
    · cases h₂
    · rename_i q t₃ hskip
      split at h₂
      · rename_i hq
        obtain ⟨_, hchars, h₃⟩ := bind_eq_ok_iff.1 h₂
        obtain ⟨back, hclose, h₄⟩ := bind_eq_ok_iff.1 h₃
        obtain ⟨rfl, rfl⟩ := Prod.mk.inj (Except.ok.inj h₄)
        exact ⟨t₁, t₂, q, t₃, hname, expectChar_eq_ok_iff.1 heq, hskip, hq, rfl, rfl,
          checkChars_eq_ok_iff.1 hchars, expectChar_eq_ok_iff.1 hclose⟩
      · cases h₂
  · rintro ⟨t₁, t₂, q, t₃, hname, heq, hskip, hq, hv, hb, hchars, hclose⟩
    refine ⟨_, hname, bind_eq_ok_iff.2 ⟨t₂, expectChar_eq_ok_iff.2 heq, ?_⟩⟩
    rw [hskip]
    dsimp only
    rw [if_pos (show q = '"' ∨ q = '\'' from hq), ← hv, ← hb]
    exact bind_eq_ok_iff.2 ⟨(), checkChars_eq_ok_iff.2 hchars,
      bind_eq_ok_iff.2 ⟨rest, expectChar_eq_ok_iff.2 hclose, rfl⟩⟩

/-- An attribute is taken whatever follows, and is tidy once its references are read. -/
theorem rawAttribute_eq_ok {t rest : Text} {a : RawAttribute} (h : rawAttribute t = .ok (a, rest)) :
    ∃ u, t = u ++ rest ∧ isPlainName u = true ∧
      (∀ ps, pieces a.value a.behind = .ok ps → Tidy u) ∧
      ∀ z, ∃ b, rawAttribute (u ++ z) = .ok (⟨a.name, a.value, b⟩, z) := by
  obtain ⟨t₁, t₂, q, t₃, hname, heq, hskip, hq, hv, hb, hchars, hclose⟩ :=
    rawAttribute_eq_ok_iff.1 h
  obtain ⟨run, rfl, hrun, hplain, hends, htakes⟩ := qname_eq_ok hname
  obtain ⟨g₁, hg₁, ht₁, -⟩ := exists_skipWhite t₁
  obtain ⟨g₂, hg₂, ht₂, -⟩ := exists_skipWhite t₂
  have ht₃ : t₃.takeWhile (fun c => c != q && c != '<') ++
      t₃.dropWhile (fun c => c != q && c != '<') = t₃ := List.takeWhile_append_dropWhile
  have hvalue : ∀ c ∈ a.value, (c != q && c != '<') = true := by
    rw [hv]
    exact List.all_eq_true.1 List.all_takeWhile
  rw [← hv, ← hb, hclose] at ht₃
  rw [hskip, ← ht₃] at ht₂
  rw [heq, ht₂] at ht₁
  subst ht₁
  obtain ⟨c, u, rfl, hc⟩ := exists_of_isPlainName hplain
  refine ⟨c :: u ++ (g₁ ++ '=' :: (g₂ ++ q :: (a.value ++ [q]))), by simp, hc, fun ps hps => ?_,
    fun z => ?_⟩
  · have hopen : '<' ∉ a.value := fun hm => absurd (hvalue '<' hm) (by simp)
    have hquote : Tidy [q] := by
      rcases hq with rfl | rfl <;> exact tidy_of_notMem (by decide) (by decide)
    have heq : Tidy ['='] := tidy_of_notMem (by decide) (by decide)
    exact (tidy_of_names hrun).append ((tidy_of_white hg₁).append (heq.append
      ((tidy_of_white hg₂).append (hquote.append ((tidy_of_pieces hps hopen).append hquote)))))
  have hall : c :: u ++ (g₁ ++ '=' :: (g₂ ++ q :: (a.value ++ [q]))) ++ z =
      c :: u ++ (g₁ ++ '=' :: (g₂ ++ q :: (a.value ++ q :: z))) := by simp
  have hwhite : ∀ {d : Char} {t : Text}, isWhite d = false → Stops isWhite (d :: t) :=
    fun hd => stops_cons.2 hd
  have hqwhite : isWhite q = false := by rcases hq with rfl | rfl <;> rfl
  have hmore : Stops isNameChar (g₁ ++ '=' :: (g₂ ++ q :: (a.value ++ q :: z))) := by
    have hne : g₁ ++ ['='] ≠ [] := by simp
    have hcut : ∀ t : Text, g₁ ++ '=' :: t = g₁ ++ ['='] ++ t := fun t => by simp
    rw [hcut] at hends ⊢
    exact stops_append hne hends
  obtain ⟨htake, hdrop⟩ := takeWhile_append_of_stops (b := q :: z) hvalue
    (stops_cons.2 (by simp))
  refine ⟨q :: z, rawAttribute_eq_ok_iff.2 ⟨_, _, q, _, ?_, skipWhite_append hg₁ (hwhite rfl),
    skipWhite_append hg₂ (hwhite hqwhite), hq, htake.symm, hdrop.symm, hchars, rfl⟩⟩
  rw [hall]
  exact htakes _ hmore

/-! ## The declaration -/

/-- A text that holds the mark begins with it, or does not, whatever follows. -/
theorem startsWith_questionMark {u z : Text} (hu : Marked u)
    (h : startsWith "?>".toList (u ++ z)) (z' : Text) : startsWith "?>".toList (u ++ z') := by
  have hlen := (contains_iff_isInfix.1 hu).length_le
  have hp : "?>".toList <+: u :=
    List.prefix_of_prefix_length_le (startsWith_iff_isPrefix.1 h) (List.prefix_append u z) hlen
  exact startsWith_iff_isPrefix.2 (hp.trans (List.prefix_append u z'))

/-- The gap in front of a part of the declaration is taken whatever follows the part. -/
theorem declarationGap_eq_ok {t u rest : Text} (h : declarationGap t = .ok (u ++ rest))
    (hu : Marked u) :
    ∃ gap, t = gap ++ (u ++ rest) ∧ ∀ z, declarationGap (gap ++ (u ++ z)) = .ok (u ++ z) := by
  have hne : u ≠ [] := List.ne_nil_of_mem hu.mem
  unfold declarationGap at h
  split at h
  · have hnil := Except.ok.inj h
    exact absurd (List.append_eq_nil_iff.1 hnil.symm).1 hne
  · rename_i c t
    split at h
    · rename_i hc
      have ht := Except.ok.inj h
      obtain ⟨gap, hgap, hcut, hstop⟩ := exists_skipWhite t
      rw [ht] at hcut hstop
      refine ⟨c :: gap, by rw [hcut]; rfl, fun z => ?_⟩
      rw [List.cons_append, declarationGap, if_pos hc, skipWhite_append hgap (stops_append hne hstop)]
    · rename_i hc
      split at h
      · rename_i hmark
        have ht := Except.ok.inj h
        rw [ht] at hmark
        have hsame := startsWith_questionMark hu hmark
        obtain ⟨d, v, rfl⟩ := List.exists_cons_of_ne_nil hne
        obtain ⟨rfl, rfl⟩ := List.cons.inj ht
        refine ⟨[], rfl, fun z => ?_⟩
        exact (if_neg hc).trans (if_pos (hsame z))
      · cases h

section
variable {t u rest : Text} (hu : Marked u)
include hu

/-- An optional attribute in front of a part of the declaration is taken whatever follows. -/
theorem optionalAttribute_eq_ok {w : Text} (hw : '?' ∉ w) {o : Option Text}
    (h : optionalAttribute w t = .ok o) (ht : o.getD t = u ++ rest) :
    ∃ p, t = p ++ (u ++ rest) ∧ ∀ z, ∃ o', optionalAttribute w (p ++ (u ++ z)) = .ok o' ∧
      o'.getD (p ++ (u ++ z)) = u ++ z ∧ o'.isSome = o.isSome := by
  have hsame : ∀ p z, startsWith w (p ++ (u ++ z)) = startsWith w (p ++ (u ++ rest)) := by
    intro p z
    rw [← List.append_assoc, ← List.append_assoc]
    exact startsWith_append_congr hw (List.mem_append_right p hu.mem) z rest
  unfold optionalAttribute at h
  split at h
  · rename_i hs
    obtain ⟨⟨a, back⟩, hraw, rfl⟩ := map_eq_ok_iff.1 h
    obtain ⟨p, rfl, -, -, htakes⟩ := rawAttribute_eq_ok hraw
    obtain rfl : back = u ++ rest := ht
    refine ⟨p, rfl, fun z => ⟨some (u ++ z), ?_, rfl, rfl⟩⟩
    obtain ⟨b, hb⟩ := htakes (u ++ z)
    rw [optionalAttribute, if_pos ((hsame p z).trans hs), hb]
    rfl
  · rename_i hs
    obtain rfl := Except.ok.inj h
    obtain rfl : t = u ++ rest := ht
    refine ⟨[], rfl, fun z => ⟨none, if_neg fun hz => hs ?_, rfl, rfl⟩⟩
    exact (hsame [] z).symm.trans hz

end

/-- The end of a declaration, from the place for `standalone` on. -/
def declarationEnd (t : Text) : Except Stop Text := do
  let t := (← optionalAttribute "standalone".toList t).getD t
  expectText "?>".toList (skipWhite t)

/-- The end of a declaration, from the gap behind its version on. -/
def declarationRest (t : Text) : Except Stop Text := do
  let t ← declarationGap t
  let t ← match ← optionalAttribute "encoding".toList t with
    | some rest => declarationGap rest
    | none => .ok t
  declarationEnd t

theorem declaration_eq (t : Text) :
    declaration t = (do
      let t ← declarationGap (t.drop 5)
      let _ ← expectText "version".toList t
      let (_, t) ← rawAttribute t
      declarationRest t) := rfl

theorem declarationEnd_eq_ok {t rest : Text} (h : declarationEnd t = .ok rest) :
    ∃ u, Marked u ∧ t = u ++ rest ∧ ∀ z, declarationEnd (u ++ z) = .ok z := by
  obtain ⟨o, ho, hend⟩ := bind_eq_ok_iff.1 h
  obtain ⟨gap, hgap, hcut, hstop⟩ := exists_skipWhite (o.getD t)
  rw [expectText_eq_ok_iff.1 hend, ← List.append_assoc] at hcut
  have hmarked : Marked (gap ++ "?>".toList) :=
    contains_append_right gap (by decide)
  obtain ⟨p, hp, htakes⟩ := optionalAttribute_eq_ok hmarked (by decide) ho hcut
  refine ⟨p ++ (gap ++ "?>".toList), hmarked.append p, by rw [hp]; simp, fun z => ?_⟩
  obtain ⟨o', ho', hget, -⟩ := htakes z
  have hwhite : Stops isWhite ("?>".toList ++ z) := by
    rw [mark_eq]
    exact stops_cons.2 rfl
  rw [declarationEnd, List.append_assoc]
  refine bind_eq_ok_iff.2 ⟨o', ho', expectText_eq_ok_iff.2 ?_⟩
  rw [hget, List.append_assoc, skipWhite_append hgap hwhite]

theorem declarationRest_eq_ok_iff {t rest : Text} :
    declarationRest t = .ok rest ↔
      ∃ t₁ o t₂, declarationGap t = .ok t₁ ∧ optionalAttribute "encoding".toList t₁ = .ok o ∧
        o.elim (.ok t₁) declarationGap = .ok t₂ ∧ declarationEnd t₂ = .ok rest := by
  rw [declarationRest, bind_eq_ok_iff]
  constructor
  · rintro ⟨t₁, hgap, h₁⟩
    obtain ⟨o, ho, h₂⟩ := bind_eq_ok_iff.1 h₁
    cases o with
    | none => exact ⟨t₁, none, t₁, hgap, ho, rfl, h₂⟩
    | some back =>
      obtain ⟨t₂, ht₂, hend⟩ := bind_eq_ok_iff.1 h₂
      exact ⟨t₁, some back, t₂, hgap, ho, ht₂, hend⟩
  · rintro ⟨t₁, o, t₂, hgap, ho, ht₂, hend⟩
    refine ⟨t₁, hgap, bind_eq_ok_iff.2 ⟨o, ho, ?_⟩⟩
    cases o with
    | none => exact (Except.ok.inj ht₂) ▸ hend
    | some back => exact bind_eq_ok_iff.2 ⟨t₂, ht₂, hend⟩

theorem declarationRest_eq_ok {t rest : Text} (h : declarationRest t = .ok rest) :
    ∃ u, Marked u ∧ t = u ++ rest ∧ ∀ z, declarationRest (u ++ z) = .ok z := by
  obtain ⟨t₁, o, t₂, hgap, ho, ht₂, hend⟩ := declarationRest_eq_ok_iff.1 h
  obtain ⟨u, hu, rfl, hrest⟩ := declarationEnd_eq_ok hend
  -- the gap behind the encoding, if there is one
  obtain ⟨g, hcut, hbehind⟩ : ∃ g, o.getD t₁ = g ++ u ++ rest ∧
      ∀ z t' (o' : Option Text), o'.isSome = o.isSome → o'.getD t' = g ++ u ++ z →
        o'.elim (.ok t') declarationGap = .ok (u ++ z) := by
    cases o with
    | none =>
      refine ⟨[], Except.ok.inj ht₂, fun z t' o' hsome hget => ?_⟩
      obtain rfl : o' = none := by simpa using hsome
      exact congrArg Except.ok hget
    | some back =>
      obtain ⟨g, rfl, htakes⟩ := declarationGap_eq_ok ht₂ hu
      refine ⟨g, (List.append_assoc _ _ _).symm, fun z t' o' hsome hget => ?_⟩
      obtain ⟨r, rfl⟩ := Option.isSome_iff_exists.1 hsome
      obtain rfl : r = g ++ u ++ z := hget
      rw [Option.elim_some, List.append_assoc]
      exact htakes z
  have hgu : Marked (g ++ u) := hu.append g
  obtain ⟨p, rfl, hencoding⟩ := optionalAttribute_eq_ok hgu (by decide) ho hcut
  rw [← List.append_assoc] at hgap
  obtain ⟨g', rfl, hgap'⟩ := declarationGap_eq_ok hgap (hgu.append p)
  refine ⟨g' ++ (p ++ (g ++ u)), (hgu.append p).append g', by simp, fun z => ?_⟩
  obtain ⟨o', ho', hget, hsome⟩ := hencoding z
  rw [List.append_assoc, declarationRest_eq_ok_iff]
  exact ⟨_, o', u ++ z, hgap' z, by rw [List.append_assoc]; exact ho',
    hbehind z _ o' hsome (by rw [List.append_assoc]; exact hget), hrest z⟩

/-- The XML declaration is taken whatever follows. -/
theorem declaration_eq_ok {t rest : Text} (h : declaration ("<?xml ".toList ++ t) = .ok rest) :
    ∃ u, Marked u ∧ t = u ++ rest ∧ ∀ z, declaration ("<?xml ".toList ++ (u ++ z)) = .ok z := by
  have hdrop : ∀ t : Text, ("<?xml ".toList ++ t).drop 5 = ' ' :: t := fun t => rfl
  rw [declaration_eq, hdrop] at h
  obtain ⟨t₁, hgap, h₁⟩ := bind_eq_ok_iff.1 h
  obtain ⟨back, hversion, h₂⟩ := bind_eq_ok_iff.1 h₁
  obtain ⟨⟨a, t₂⟩, hraw, h₃⟩ := bind_eq_ok_iff.1 h₂
  obtain ⟨u, hu, rfl, hrest⟩ := declarationRest_eq_ok h₃
  obtain ⟨p, rfl, hplain, -, htakes⟩ := rawAttribute_eq_ok hraw
  obtain ⟨gap, hgapWhite, hcut, hstop⟩ := exists_skipWhite t
  have hskip : skipWhite t = p ++ (u ++ rest) := Except.ok.inj hgap
  rw [hskip] at hcut hstop
  subst hcut
  obtain ⟨c, v, rfl, -⟩ := exists_of_isPlainName hplain
  refine ⟨gap ++ (c :: v ++ u), (hu.append _).append gap, by simp, fun z => ?_⟩
  have hall : gap ++ (c :: v ++ u) ++ z = gap ++ (c :: v ++ (u ++ z)) := by
    simp only [List.append_assoc]
  have hgap' : declarationGap (' ' :: (gap ++ (c :: v ++ (u ++ z)))) =
      .ok (c :: v ++ (u ++ z)) :=
    congrArg Except.ok (skipWhite_append hgapWhite (stops_append (List.cons_ne_nil c v) hstop))
  have hsame : startsWith "version".toList (c :: v ++ (u ++ z)) := by
    have hs : startsWith "version".toList (c :: v ++ (u ++ rest)) :=
      startsWith_iff_isPrefix.2 ⟨back, (expectText_eq_ok_iff.1 hversion).symm⟩
    rw [← List.append_assoc] at hs ⊢
    rwa [startsWith_append_congr (by decide) (hu.append (c :: v)).mem z rest]
  obtain ⟨back', hback⟩ := startsWith_iff_isPrefix.1 hsame
  obtain ⟨b, hb⟩ := htakes (u ++ z)
  rw [declaration_eq, hdrop, hall]
  exact bind_eq_ok_iff.2 ⟨_, hgap', bind_eq_ok_iff.2 ⟨back',
    expectText_eq_ok_iff.2 hback.symm, bind_eq_ok_iff.2 ⟨_, hb, hrest z⟩⟩⟩

end Graft.Xml
