import Graft.Text.Line
import Graft.Text.Search

/-!
# Occurrences and places

What becomes of a word's occurrences when a text is put together from two parts.

* `contains_append_iff`: an occurrence lies in one part, in the other, or across the place between;
* `contains_insert`: an occurrence that does not lie across a place survives what is inserted there;
* `cut?_append_of_none`, `lastCut?_append_of_none`: where no occurrence lies across the place, the
  first and the last occurrence are those of the parts;
* `not_straddles_of_lineStart`: a word on one line lies across no place at which a line begins;
* `contains_of_cut?`, `contains_of_lastCut?`: what stands in front of a first occurrence, and behind
  a last one, does not show the word.
-/

namespace Graft.Text

/-! ## Characters of a text -/

/-- The word is not empty and does not begin with a blank. -/
def Firm (w : Text) : Prop := ∃ c u, w = c :: u ∧ isSpace c = false

theorem firm_of_head? {w : Text} (h : w.head?.any (fun c => !isSpace c) = true) : Firm w := by
  cases w with
  | nil => cases h
  | cons c u => exact ⟨c, u, rfl, by simpa using h⟩

theorem forall_mem_of_all {p : Char → Prop} [DecidablePred p] {t : Text}
    (h : t.all (fun c => p c) = true) : ∀ c ∈ t, p c := by
  intro c hc
  exact of_decide_eq_true (List.all_eq_true.1 h c hc)

theorem notMem_of_isBlank {c : Char} {gap : Text} (hg : isBlank gap) (hc : isSpace c = false) :
    c ∉ gap := by
  intro hm
  rw [List.all_eq_true.1 hg c hm] at hc
  cases hc

theorem upTo_append_append (front head rest : Text) :
    upTo (front ++ (head ++ rest)) rest = front ++ head := by
  rw [← List.append_assoc, upTo_of_append]

/-! ## Occurrences -/

/-- An occurrence of `w` lies across the place between `a` and `b`. -/
def Straddles (w a b : Text) : Prop :=
  ∃ u v, u ≠ [] ∧ v ≠ [] ∧ w = u ++ v ∧ u <:+ a ∧ v <+: b

theorem contains_iff_isInfix {w t : Text} : contains w t ↔ w <:+: t := by
  rw [contains_iff]
  constructor
  · rintro ⟨a, b, rfl⟩; exact ⟨a, b, rfl⟩
  · rintro ⟨a, b, rfl⟩; exact ⟨a, b, rfl⟩

theorem contains_append_iff {w a b : Text} :
    contains w (a ++ b) ↔ contains w a ∨ contains w b ∨ Straddles w a b := by
  simp only [contains_iff_isInfix]
  exact List.infix_append_iff_ne_nil

theorem contains_append_left {w a : Text} (h : contains w a) (b : Text) : contains w (a ++ b) :=
  contains_append_iff.2 (.inl h)

theorem contains_append_right {w b : Text} (a : Text) (h : contains w b) : contains w (a ++ b) :=
  contains_append_iff.2 (.inr (.inl h))

theorem contains_trans {u v t : Text} (h : contains u v) (h' : contains v t) : contains u t := by
  rw [contains_iff_isInfix] at *
  exact h.trans h'

/-- What is inserted at a place that no occurrence lies across hides none. -/
theorem contains_insert {w a b : Text} (h : contains w (a ++ b)) (hs : ¬ Straddles w a b)
    (c : Text) : contains w (a ++ c ++ b) := by
  rcases contains_append_iff.1 h with h | h | h
  · exact contains_append_left (contains_append_left h c) b
  · exact contains_append_right (a ++ c) h
  · exact absurd h hs

/-! ## Places that no occurrence lies across -/

theorem not_straddles_nil (w a : Text) : ¬ Straddles w a [] := by
  rintro ⟨u, v, _, hv, _, _, hp⟩
  exact hv (List.prefix_nil.1 hp)

theorem Straddles.cons {w a b : Text} (c : Char) (h : Straddles w a b) :
    Straddles w (c :: a) b := by
  obtain ⟨u, v, hu, hv, hw, ha, hb⟩ := h
  exact ⟨u, v, hu, hv, hw, ha.trans (List.suffix_cons c a), hb⟩

/-- A word lies across no place that a character it lacks follows. -/
theorem not_straddles_of_notMem_right {w a b : Text} {c : Char} (hc : c ∉ w) :
    ¬ Straddles w a (c :: b) := by
  rintro ⟨u, v, _, hv, rfl, _, hp⟩
  cases v with
  | nil => exact hv rfl
  | cons d v =>
    obtain ⟨rfl, _⟩ := List.cons_prefix_cons.1 hp
    exact hc (by simp)

/-- A word lies across no place that a character it lacks stands in front of. -/
theorem not_straddles_of_notMem_left {w a b : Text} {c : Char} (hc : c ∉ w) :
    ¬ Straddles w (a ++ [c]) b := by
  rintro ⟨u, v, hu, _, rfl, hs, _⟩
  obtain ⟨s, hs⟩ := hs
  have hl := congrArg List.getLast? hs
  rw [List.getLast?_append, List.getLast?_concat] at hl
  cases hu' : u.getLast? with
  | none => exact hu (List.getLast?_eq_none_iff.1 hu')
  | some d =>
    simp only [hu', Option.some_or, Option.some.injEq] at hl
    exact hc (List.mem_append_left _ (hl ▸ List.mem_of_getLast? hu'))

/-- A word that has its first character nowhere else lies across no place that this character
follows. -/
theorem not_straddles_of_head {c : Char} {u : Text} (hc : c ∉ u) (a b : Text) :
    ¬ Straddles (c :: u) a (c :: b) := by
  rintro ⟨x, y, hx, hy, hxy, -, hp⟩
  obtain ⟨d, x, rfl⟩ := List.exists_cons_of_ne_nil hx
  obtain ⟨e, y, rfl⟩ := List.exists_cons_of_ne_nil hy
  obtain ⟨-, rfl⟩ := List.cons.inj hxy
  obtain ⟨rfl, -⟩ := List.cons_prefix_cons.1 hp
  exact hc (List.mem_append_right x List.mem_cons_self)

/-- Nor does it lie across the place behind itself. -/
theorem not_straddles_self_of_head {c : Char} {u : Text} (hc : c ∉ u) (b : Text) :
    ¬ Straddles (c :: u) (c :: u) b := by
  rintro ⟨x, y, hx, hy, hxy, hs, -⟩
  obtain ⟨d, x, rfl⟩ := List.exists_cons_of_ne_nil hx
  obtain ⟨rfl, -⟩ := List.cons.inj hxy
  rcases List.suffix_cons_iff.1 hs with hs | hs
  · rw [← hs] at hxy
    exact hy (List.append_cancel_left ((List.append_nil _).trans hxy)).symm
  · exact hc (hs.subset List.mem_cons_self)

/-- A character that a word lacks keeps the occurrences on its sides apart. -/
theorem contains_separated_iff {w b : Text} {c : Char} (hc : c ∉ w) (hne : w ≠ []) (a : Text) :
    contains w (a ++ [c] ++ b) ↔ contains w a ∨ contains w b := by
  have hleft : contains w (a ++ [c]) ↔ contains w a := by
    rw [contains_append_iff]
    constructor
    · rintro (h | h | h)
      · exact h
      · obtain ⟨d, u, rfl⟩ := List.exists_cons_of_ne_nil hne
        have hd := (contains_iff_isInfix.1 h).subset List.mem_cons_self
        exact absurd (List.mem_cons.2 (.inl (List.mem_singleton.1 hd).symm)) hc
      · exact absurd h (not_straddles_of_notMem_right hc)
    · exact .inl
  rw [contains_append_iff, hleft]
  constructor
  · rintro (h | h | h)
    · exact .inl h
    · exact .inr h
    · exact absurd h (not_straddles_of_notMem_left hc)
  · exact Or.imp_right .inl

theorem lastLine_eq_nil_iff {a : Text} : lastLine a = [] ↔ a = [] ∨ ∃ b, a = b ++ ['\n'] := by
  rcases List.eq_nil_or_concat a with rfl | ⟨b, c, rfl⟩
  · simp [lastLine]
  · by_cases hc : c = '\n'
    · subst hc; simp [lastLine]
    · simp [lastLine, hc]

/-- A word on one line lies across no place at which a line begins. -/
theorem not_straddles_of_lineStart {w a b : Text} (ha : lastLine a = []) (hw : '\n' ∉ w) :
    ¬ Straddles w a b := by
  rcases lastLine_eq_nil_iff.1 ha with rfl | ⟨a, rfl⟩
  · rintro ⟨u, _, hu, _, _, hs, _⟩
    exact hu (List.suffix_nil.1 hs)
  · exact not_straddles_of_notMem_left hw

/-! ## The leftmost match -/

theorem leftmost_const {α : Type} (m : Text → Option α) (before : Option Char) (t : Text) :
    leftmost (fun _ => m) before t = leftmost (fun _ => m) none t := by
  cases t <;> simp only [leftmost]

theorem getLast?_cons_or (c : Char) (p : Text) (before : Option Char) :
    (c :: p).getLast?.or before = p.getLast?.or (some c) := by
  rw [List.getLast?_cons]
  cases p.getLast? <;> rfl

/-- The leftmost match is a match, and no match begins in front of it. -/
theorem leftmost_eq_some_iff_at {α : Type} {m : Option Char → Text → Option α}
    {before : Option Char} {t skipped : Text} {x : α} :
    leftmost m before t = some (skipped, x) ↔
      ∃ rest, t = skipped ++ rest ∧ m (skipped.getLast?.or before) rest = some x ∧
        ∀ p q, skipped = p ++ q → q ≠ [] → m (p.getLast?.or before) (q ++ rest) = none := by
  induction t generalizing before skipped with
  | nil =>
    simp only [leftmost, Option.map_eq_some_iff, Prod.mk.injEq]
    constructor
    · rintro ⟨_, hm, rfl, rfl⟩
      exact ⟨[], rfl, hm, by simp⟩
    · rintro ⟨rest, ht, hm, _⟩
      obtain ⟨rfl, rfl⟩ := List.append_eq_nil_iff.1 ht.symm
      exact ⟨x, hm, rfl, rfl⟩
  | cons c t ih =>
    simp only [leftmost]
    split
    · rename_i y hy
      simp only [Option.some.injEq, Prod.mk.injEq]
      constructor
      · rintro ⟨rfl, rfl⟩
        exact ⟨c :: t, rfl, hy, by simp⟩
      · rintro ⟨rest, ht, hm, hn⟩
        cases skipped with
        | nil =>
          subst ht
          exact ⟨rfl, Option.some.inj (hy.symm.trans hm)⟩
        | cons d s => exact absurd (hn [] (d :: s) rfl (by simp)) (by simp [← ht, hy])
    · rename_i hc
      simp only [Option.map_eq_some_iff, Prod.mk.injEq, Prod.exists]
      constructor
      · rintro ⟨s, _, hs, rfl, rfl⟩
        obtain ⟨rest, rfl, hm, hn⟩ := ih.1 hs
        refine ⟨rest, rfl, by rwa [getLast?_cons_or], fun p q hpq hq => ?_⟩
        cases p with
        | nil => subst hpq; exact hc
        | cons d p =>
          obtain ⟨rfl, htail⟩ := List.cons.inj hpq
          rw [getLast?_cons_or]
          exact hn p q htail hq
      · rintro ⟨rest, ht, hm, hn⟩
        cases skipped with
        | nil => exact absurd hm (by simp [← show c :: t = rest from ht, hc])
        | cons d s =>
          obtain ⟨rfl, rfl⟩ := List.cons.inj ht
          rw [getLast?_cons_or] at hm
          refine ⟨s, x, ih.2 ⟨rest, rfl, hm, fun p q hpq hq => ?_⟩, rfl, rfl⟩
          rw [← getLast?_cons_or]
          exact hn (c :: p) q (by simp [hpq]) hq

/-- Nothing is found exactly when there is a match nowhere. -/
theorem leftmost_eq_none_iff {α : Type} {m : Option Char → Text → Option α} {before : Option Char}
    {t : Text} :
    leftmost m before t = none ↔ ∀ p q, t = p ++ q → m (p.getLast?.or before) q = none := by
  constructor
  · rintro h p q rfl
    refine Option.eq_none_iff_forall_ne_some.2 fun x hx => ?_
    have hfound := leftmost_isSome (Option.isSome_of_eq_some hx)
    rw [h] at hfound
    cases hfound
  · intro h
    refine Option.eq_none_iff_forall_ne_some.2 fun ⟨skipped, x⟩ hx => ?_
    obtain ⟨rest, rfl, hm, -⟩ := leftmost_eq_some_iff_at.1 hx
    rw [h skipped rest rfl] at hm
    cases hm

/-- What matches a place hangs on the text from there on. -/
theorem leftmost_eq_some_iff {α : Type} {m : Text → Option α} {t skipped : Text} {x : α} :
    leftmost (fun _ => m) none t = some (skipped, x) ↔
      ∃ rest, t = skipped ++ rest ∧ m rest = some x ∧
        ∀ p q, skipped = p ++ q → q ≠ [] → m (q ++ rest) = none :=
  leftmost_eq_some_iff_at

/-! ## First and last occurrences in a text of two parts -/

theorem contains_eq_false_iff {w t : Text} : contains w t = false ↔ cut? w t = none := by
  simp [contains]

theorem skip?_eq_none_iff {w t : Text} : skip? w t = none ↔ ¬ w <+: t := by
  rw [Option.eq_none_iff_forall_ne_some]
  constructor
  · rintro h ⟨rest, rfl⟩
    exact h rest (skip?_eq_some_iff.2 rfl)
  · rintro h rest hr
    exact h ⟨rest, (skip?_eq_some_iff.1 hr).symm⟩

theorem startsWith_iff_isPrefix {w t : Text} : startsWith w t ↔ w <+: t := by
  rw [startsWith, Option.isSome_iff_exists]
  exact exists_congr fun _ => skip?_eq_some_iff.trans eq_comm

theorem startsWith_append (w z : Text) : startsWith w (w ++ z) :=
  startsWith_iff_isPrefix.2 (List.prefix_append w z)

/-- The first occurrence does not depend on what follows it. -/
theorem cut?_append_of_some {w a front rest : Text} (h : cut? w a = some (front, rest))
    (b : Text) : cut? w (a ++ b) = some (front, rest ++ b) := by
  obtain ⟨r, rfl, hr, hn⟩ := leftmost_eq_some_iff.1 h
  obtain rfl := skip?_eq_some_iff.1 hr
  refine leftmost_eq_some_iff.2 ⟨w ++ (rest ++ b), by simp, skip?_eq_some_iff.2 rfl, ?_⟩
  intro p q hpq hq
  have hfirst := skip?_eq_none_iff.1 (hn p q hpq hq)
  refine skip?_eq_none_iff.2 fun hw => hfirst ?_
  have hlong : q ++ w <+: q ++ (w ++ (rest ++ b)) := by
    rw [List.prefix_append_right_inj]
    exact List.prefix_append w _
  have hle : w <+: q ++ w := List.prefix_of_prefix_length_le hw hlong (by simp)
  simpa using hle.trans (List.prefix_append (q ++ w) rest)

/-- A word that begins at the end of `a` lies in `a` or across the place behind it. -/
theorem straddles_of_prefix {w a b : Text} (ha : a ≠ []) (h : w <+: a ++ b) :
    w <+: a ∨ Straddles w a b := by
  obtain ⟨rest, hr⟩ := h
  rcases List.append_eq_append_iff.1 hr with ⟨r, hr, _⟩ | ⟨v, hw, hb⟩
  · exact .inl ⟨r, hr.symm⟩
  · by_cases hv : v = []
    · subst hv; exact .inl (by simp [hw])
    · exact .inr ⟨a, v, ha, hv, hw, List.suffix_refl a, hb ▸ List.prefix_append v rest⟩

theorem Straddles.of_suffix {w a a' b : Text} (h : Straddles w a b) (hs : a <:+ a') :
    Straddles w a' b := by
  obtain ⟨u, v, hu, hv, hw, ha, hb⟩ := h
  exact ⟨u, v, hu, hv, hw, ha.trans hs, hb⟩

theorem cut?_append_of_none {w a b : Text} (h : cut? w a = none) (hs : ¬ Straddles w a b) :
    cut? w (a ++ b) = (cut? w b).map fun p => (a ++ p.1, p.2) := by
  cases hb : cut? w b with
  | none =>
    rw [← contains_eq_false_iff] at h hb
    rw [Option.map_none, ← contains_eq_false_iff, ← Bool.not_eq_true, contains_append_iff]
    simp [h, hb, hs]
  | some p =>
    obtain ⟨front, rest⟩ := p
    obtain ⟨r, rfl, hr, hn⟩ := leftmost_eq_some_iff.1 hb
    refine leftmost_eq_some_iff.2 ⟨r, by simp, hr, fun p q hpq hq => ?_⟩
    rcases List.append_eq_append_iff.1 hpq with ⟨d, rfl, hq'⟩ | ⟨d, rfl, rfl⟩
    · exact hn d q hq' hq
    · by_cases hd : d = []
      · subst hd; exact hn [] front rfl (by simpa using hq)
      · rw [List.append_assoc]
        refine skip?_eq_none_iff.2 fun hw => ?_
        rcases straddles_of_prefix hd hw with hw | hw
        · have hin : contains w (p ++ d) :=
            contains_iff_isInfix.2 (hw.isInfix.trans (List.suffix_append p d).isInfix)
          exact absurd h (by simpa [← contains_eq_false_iff] using hin)
        · exact hs (hw.of_suffix (List.suffix_append p d))

theorem lastCut?_cons (w : Text) (c : Char) (t : Text) :
    lastCut? w (c :: t) =
      ((lastCut? w t).map fun p => (c :: p.1, p.2)).or
        ((skip? w (c :: t)).map fun rest => ([], rest)) := by
  rw [lastCut?]
  cases lastCut? w t <;> rfl

theorem lastCut?_append_of_some {w b front rest : Text} (h : lastCut? w b = some (front, rest))
    (a : Text) : lastCut? w (a ++ b) = some (a ++ front, rest) := by
  induction a with
  | nil => exact h
  | cons c a ih => rw [List.cons_append, lastCut?_cons, ih]; rfl

theorem lastCut?_append_of_none {w a b : Text} (h : lastCut? w b = none)
    (hs : ¬ Straddles w a b) :
    lastCut? w (a ++ b) = (lastCut? w a).map fun p => (p.1, p.2 ++ b) := by
  induction a with
  | nil =>
    cases b with
    | nil => simp [h]
    | cons c b =>
      cases w with
      | nil => simp [lastCut?_cons, skip?] at h
      | cons d w => simp [h, lastCut?, skip?]
  | cons c a ih =>
    have hs' : ¬ Straddles w a b := fun hw => hs (hw.cons c)
    rw [List.cons_append, lastCut?_cons, lastCut?_cons, ih hs']
    cases hk : skip? w (c :: a) with
    | some r =>
      rw [skip?_eq_some_iff.2 (show c :: (a ++ b) = w ++ (r ++ b) by
        rw [← List.cons_append, skip?_eq_some_iff.1 hk, List.append_assoc])]
      cases lastCut? w a <;> rfl
    | none =>
      have hn : skip? w (c :: (a ++ b)) = none := by
        refine skip?_eq_none_iff.2 fun hw => ?_
        rcases straddles_of_prefix (a := c :: a) (by simp) hw with hw | hw
        · exact skip?_eq_none_iff.1 hk hw
        · exact hs hw
      rw [hn]
      cases lastCut? w a <;> rfl

theorem lastCut?_eq_none_iff {w t : Text} : lastCut? w t = none ↔ contains w t = false := by
  induction t with
  | nil => simp [contains, cut?, leftmost, lastCut?]
  | cons c t ih =>
    rw [lastCut?_cons, Option.or_eq_none_iff, Option.map_eq_none_iff, Option.map_eq_none_iff, ih,
      ← Bool.not_eq_true, ← Bool.not_eq_true, contains_iff_isInfix, contains_iff_isInfix,
      List.infix_cons_iff, skip?_eq_none_iff, not_or, and_comm]

/-! ## First and last occurrences by what stands around them -/

/-- No occurrence is in front of the first one. -/
theorem contains_of_cut? {w t front rest : Text} (hw : w ≠ []) (h : cut? w t = some (front, rest)) :
    contains w front = false := by
  refine Bool.eq_false_iff.2 fun hc => ?_
  obtain ⟨⟨f, r⟩, hcut⟩ := Option.isSome_iff_exists.1 hc
  have hlong := cut?_append_of_some hcut (w ++ rest)
  rw [← List.append_assoc, ← cut?_eq_append h, h] at hlong
  obtain ⟨rfl, -⟩ := Prod.mk.inj (Option.some.inj hlong)
  have hlen := congrArg List.length (cut?_eq_append hcut)
  have hpos := List.length_pos_iff.2 hw
  simp only [List.length_append] at hlen
  omega

theorem cut?_append_self (w rest : Text) : cut? w (w ++ rest) = some ([], rest) := by
  refine leftmost_eq_some_iff.2 ⟨w ++ rest, rfl, skip?_eq_some_iff.2 rfl, ?_⟩
  intro p q hpq hq
  exact absurd (List.append_eq_nil_iff.1 hpq.symm).2 hq

/-- A word that has its first character nowhere else first occurs where it does not occur before. -/
theorem cut?_of_head {c : Char} {u front : Text} (hc : c ∉ u)
    (h : contains (c :: u) front = false) (rest : Text) :
    cut? (c :: u) (front ++ (c :: u ++ rest)) = some (front, rest) := by
  have hs : ¬ Straddles (c :: u) front (c :: u ++ rest) :=
    not_straddles_of_head hc front (u ++ rest)
  rw [cut?_append_of_none (contains_eq_false_iff.1 h) hs, cut?_append_self, Option.map_some,
    List.append_nil]

/-- No occurrence is behind the last one. -/
theorem contains_of_lastCut? {w t front rest : Text} (hw : w ≠ [])
    (h : lastCut? w t = some (front, rest)) : contains w rest = false := by
  induction t generalizing front with
  | nil =>
    obtain ⟨r, hr, heq⟩ := Option.map_eq_some_iff.1 h
    exact absurd (List.append_eq_nil_iff.1 (skip?_eq_some_iff.1 hr).symm).1 hw
  | cons c t ih =>
    rw [lastCut?_cons] at h
    rcases Option.or_eq_some_iff.1 h with h | ⟨hnone, h⟩
    · obtain ⟨⟨a, b⟩, hab, heq⟩ := Option.map_eq_some_iff.1 h
      obtain ⟨-, rfl⟩ := Prod.mk.inj heq
      exact ih hab
    · obtain ⟨r, hr, heq⟩ := Option.map_eq_some_iff.1 h
      obtain ⟨-, rfl⟩ := Prod.mk.inj heq
      obtain ⟨d, u, rfl⟩ := List.exists_cons_of_ne_nil hw
      obtain ⟨-, ht⟩ := List.cons.inj (skip?_eq_some_iff.1 hr)
      have hfree := lastCut?_eq_none_iff.1 (Option.map_eq_none_iff.1 hnone)
      refine Bool.eq_false_iff.2 fun hin => ?_
      rw [ht, ← Bool.not_eq_true] at hfree
      exact hfree (contains_append_right u hin)

theorem lastCut?_self {w : Text} (hw : w ≠ []) : lastCut? w w = some ([], []) := by
  obtain ⟨c, u, rfl⟩ := List.exists_cons_of_ne_nil hw
  have hnone : lastCut? (c :: u) u = none := by
    refine lastCut?_eq_none_iff.2 (Bool.eq_false_iff.2 fun hin => ?_)
    have hlen := (contains_iff_isInfix.1 hin).length_le
    rw [List.length_cons] at hlen
    omega
  rw [lastCut?_cons, hnone, skip?_eq_some_iff.2 (List.append_nil _).symm]
  rfl

/-- A word that has its first character nowhere else last occurs where it does not occur behind. -/
theorem lastCut?_of_head {c : Char} {u rest : Text} (hc : c ∉ u)
    (h : contains (c :: u) rest = false) (front : Text) :
    lastCut? (c :: u) (front ++ (c :: u ++ rest)) = some (front, rest) := by
  have hlast : lastCut? (c :: u) (c :: u ++ rest) = some ([], rest) := by
    rw [lastCut?_append_of_none (lastCut?_eq_none_iff.2 h) (not_straddles_self_of_head hc rest),
      lastCut?_self (List.cons_ne_nil c u)]
    rfl
  rw [lastCut?_append_of_some hlast, List.append_nil]

end Graft.Text
