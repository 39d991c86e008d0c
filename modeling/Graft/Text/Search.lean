import Graft.Text.Basic

/-!
# Searching texts

Everything that is looked for is looked for from the left: `leftmost` finds the first place at
which a matcher succeeds, and gives the text in front of it.  On it rest the first occurrence of a
word (`cut?`), the number of its disjoint occurrences (`count`) and the order of several
(`inOrder`).

* `skip?_eq_some_iff`: a word is skipped exactly when the text begins with it;
* `cut?_eq_append`: the parts around a first occurrence make up the text;
* `contains_iff`: a word is contained exactly when the text is `a ++ w ++ b`.
-/

namespace Graft.Text

/-- What follows `w` in a text that begins with it. -/
def skip? : Text → Text → Option Text
  | [], t => some t
  | _ :: _, [] => none
  | w :: ws, c :: t => if w = c then skip? ws t else none

/-- The first place at which the matcher succeeds, as the text before it and the matcher's answer.
The matcher is given the character in front of the place and the text from there on. -/
def leftmost {α : Type} (m : Option Char → Text → Option α) :
    Option Char → Text → Option (Text × α)
  | before, [] => (m before []).map fun a => ([], a)
  | before, c :: t =>
    match m before (c :: t) with
    | some a => some ([], a)
    | none => (leftmost m (some c) t).map fun (skipped, a) => (c :: skipped, a)

/-- The parts of a text before and after the first occurrence of `w`. -/
def cut? (w t : Text) : Option (Text × Text) := leftmost (fun _ => skip? w) none t

/-- The parts of a text before and after the last occurrence of `w`. -/
def lastCut? (w : Text) : Text → Option (Text × Text)
  | [] => (skip? w []).map fun rest => ([], rest)
  | c :: t =>
    match lastCut? w t with
    | some (front, rest) => some (c :: front, rest)
    | none => (skip? w (c :: t)).map fun rest => ([], rest)

/-- Whether `w` occurs in the text. -/
def contains (w t : Text) : Bool := (cut? w t).isSome

/-- Whether the text begins with `w`. -/
def startsWith (w t : Text) : Bool := (skip? w t).isSome

/-- Whether the text ends with the character `c`. -/
def endsWith (c : Char) (t : Text) : Bool := t.getLast? == some c

/-- The number of disjoint occurrences of `w`, taken from the left, when the first `busy`
characters still belong to the last one. -/
def countFrom (w : Text) : Nat → Text → Nat
  | _, [] => 0
  | busy + 1, _ :: t => countFrom w busy t
  | 0, c :: t =>
    if startsWith w (c :: t) then countFrom w (w.length - 1) t + 1 else countFrom w 0 t

/-- The number of disjoint occurrences of `w`, taken from the left.  The empty word occurs before
every character and at the end. -/
def count (w t : Text) : Nat := if w.isEmpty then t.length + 1 else countFrom w 0 t

/-- Whether the words can be found one after the other, each after the end of the one before. -/
def inOrder (t : Text) : List Text → Bool
  | [] => true
  | w :: ws =>
    match cut? w t with
    | some (_, rest) => inOrder rest ws
    | none => false

/-- The parts between the characters `sep`, one more than there are of them. -/
def splitAt (sep : Char) : Text → List Text
  | [] => [[]]
  | c :: t =>
    if c = sep then [] :: splitAt sep t
    else
      match splitAt sep t with
      | [] => [[c]]
      | part :: parts => (c :: part) :: parts

theorem skip?_eq_some_iff {w t rest : Text} : skip? w t = some rest ↔ t = w ++ rest := by
  induction w generalizing t with
  | nil => simp [skip?]
  | cons c w ih =>
    cases t with
    | nil => simp [skip?]
    | cons d t =>
      by_cases h : c = d
      · subst h; simp [skip?, ih]
      · simp [skip?, h, Ne.symm h]

theorem leftmost_eq_append {α : Type} {m : Option Char → Text → Option α} {before : Option Char}
    {t skipped : Text} {a : α} (h : leftmost m before t = some (skipped, a)) :
    ∃ rest, t = skipped ++ rest ∧ m (skipped.getLast?.or before) rest = some a := by
  induction t generalizing before skipped with
  | nil =>
    obtain ⟨b, hb, hp⟩ := Option.map_eq_some_iff.1 h
    obtain ⟨rfl, rfl⟩ := Prod.mk.inj hp
    exact ⟨[], rfl, by simpa using hb⟩
  | cons c t ih =>
    simp only [leftmost] at h
    split at h
    · rename_i b hb
      obtain ⟨rfl, rfl⟩ := Prod.mk.inj (Option.some.inj h)
      exact ⟨c :: t, rfl, by simpa using hb⟩
    · obtain ⟨⟨s, b⟩, hs, hp⟩ := Option.map_eq_some_iff.1 h
      obtain ⟨rfl, rfl⟩ := Prod.mk.inj hp
      obtain ⟨rest, rfl, hm⟩ := ih hs
      refine ⟨rest, rfl, ?_⟩
      rw [List.getLast?_cons]
      cases hl : s.getLast? <;> simpa [hl] using hm

theorem cut?_eq_append {w t front rest : Text} (h : cut? w t = some (front, rest)) :
    t = front ++ w ++ rest := by
  obtain ⟨tail, rfl, hm⟩ := leftmost_eq_append h
  rw [skip?_eq_some_iff.1 hm, List.append_assoc]

theorem leftmost_isSome {α : Type} {m : Option Char → Text → Option α} {before : Option Char}
    {a t : Text} (h : (m (a.getLast?.or before) t).isSome) :
    (leftmost m before (a ++ t)).isSome := by
  induction a generalizing before with
  | nil =>
    cases t with
    | nil => simpa [leftmost] using h
    | cons c t =>
      obtain ⟨x, hx⟩ := Option.isSome_iff_exists.1 h
      simp at hx
      simp [leftmost, hx]
  | cons c a ih =>
    simp only [List.cons_append, leftmost]
    split
    · rfl
    · simp only [Option.isSome_map]
      apply ih
      rw [List.getLast?_cons] at h
      cases hl : a.getLast? <;> simpa [hl] using h

theorem contains_iff {w t : Text} : contains w t ↔ ∃ a b, t = a ++ w ++ b := by
  constructor
  · intro h
    obtain ⟨⟨a, b⟩, hc⟩ := Option.isSome_iff_exists.1 h
    exact ⟨a, b, cut?_eq_append hc⟩
  · rintro ⟨a, b, rfl⟩
    rw [List.append_assoc]
    apply leftmost_isSome
    rw [skip?_eq_some_iff.2 rfl]
    rfl

theorem lastCut?_eq_append {w t front rest : Text} (h : lastCut? w t = some (front, rest)) :
    t = front ++ w ++ rest := by
  induction t generalizing front with
  | nil =>
    obtain ⟨r, hr, hp⟩ := Option.map_eq_some_iff.1 h
    obtain ⟨rfl, rfl⟩ := Prod.mk.inj hp
    simpa using skip?_eq_some_iff.1 hr
  | cons c t ih =>
    simp only [lastCut?] at h
    split at h
    · rename_i f r hc
      obtain ⟨rfl, rfl⟩ := Prod.mk.inj (Option.some.inj h)
      simpa using ih hc
    · obtain ⟨r, hr, hp⟩ := Option.map_eq_some_iff.1 h
      obtain ⟨rfl, rfl⟩ := Prod.mk.inj hp
      simpa using skip?_eq_some_iff.1 hr

end Graft.Text
