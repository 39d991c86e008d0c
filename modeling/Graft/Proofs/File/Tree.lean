import Graft.File.Tree
import Graft.Proofs.Fallible
import Graft.Proofs.File.Path

/-!
# What changes in a tree

Where the tree lets a path through it leads to its `destination`.  A directory is made and a file is
written there and nowhere else, and never in place of a directory.  `ChangedWithin` is a change of
any number of such steps: directories come up where there was nothing, and files get new texts.

* `walk_cons_eq_ok_iff`: what the tree asks of one segment;
* `makeDir_eq_ok`, `write_eq_ok`: what one change does;
* `ChangedWithin.trans`: changes one after the other;
* `ChangedWithin.locate`: a path leads where it led;
* `ChangedWithin.readText`: a text that is not written over can be read as before.
-/

namespace Graft.FileTree

open Text (splitAt endsWith)

variable {t t' t'' : FileTree} {p : Path} {l l' : Location} {segments : List Text}

/-! ## Following paths -/

/-- A segment is short enough for a name, or is not used as one. -/
def Fits (segment : Text) : Prop :=
  segment = [] ∨ segment = Path.dot ∨ segment = Path.dots ∨
    Text.byteCount segment ≤ Path.nameLimit

theorem enter_eq_ok_iff : t.enter l = .ok () ↔ t.get? l = some .directory := by
  rw [enter]
  split <;> simp_all

theorem within_eq_ok_iff {name : Text} :
    within l name = .ok l' ↔ Text.byteCount name ≤ Path.nameLimit ∧ l' = l ++ [name] := by
  rw [within]
  by_cases h : Path.nameLimit < Text.byteCount name
  · rw [if_pos h]
    exact ⟨fun he => (nomatch he), fun ⟨hle, _⟩ => absurd h (Nat.not_lt_of_le hle)⟩
  · rw [if_neg h, Except.ok.injEq, eq_comm]
    exact (and_iff_right (Nat.le_of_not_lt h)).symm

/-- A segment is followed from a directory, to where it advances. -/
theorem walk_cons_eq_ok_iff {s : Text} :
    t.walk l (s :: segments) = .ok l' ↔
      t.get? l = some .directory ∧ Fits s ∧ t.walk (Path.advance l s) segments = .ok l' := by
  rw [walk, check_eq_ok_iff, enter_eq_ok_iff, Fits, Path.advance]
  by_cases hnone : s = []
  · subst hnone
    simp
  by_cases hdot : s = Path.dot
  · subst hdot
    simp
  by_cases hdots : s = Path.dots
  · subst hdots
    simp [hnone, hdot]
  · simp [hnone, hdot, hdots, bind_eq_ok_iff, within_eq_ok_iff, and_assoc]

theorem walk_nil_eq_ok_iff : t.walk l [] = .ok l' ↔ l = l' := by
  rw [walk, Except.ok.injEq]

/-- Whatever is there, segments lead to where they advance. -/
theorem eq_of_walk (h : t.walk l segments = .ok l') : l' = segments.foldl Path.advance l := by
  induction segments generalizing l with
  | nil => exact (walk_nil_eq_ok_iff.1 h).symm
  | cons s segments ih => exact ih (walk_cons_eq_ok_iff.1 h).2.2

theorem walk_append_eq_ok_iff {more : List Text} :
    t.walk l (segments ++ more) = .ok l' ↔
      ∃ k, t.walk l segments = .ok k ∧ t.walk k more = .ok l' := by
  induction segments generalizing l with
  | nil => simp [walk_nil_eq_ok_iff]
  | cons s segments ih =>
    simp only [List.cons_append, walk_cons_eq_ok_iff, ih]
    constructor
    · rintro ⟨hl, hs, k, hk, hmore⟩
      exact ⟨k, ⟨hl, hs, hk⟩, hmore⟩
    · rintro ⟨k, ⟨hl, hs, hk⟩, hmore⟩
      exact ⟨hl, hs, k, hk, hmore⟩

/-- Segments that lead to a directory are followed from one. -/
theorem get?_of_walk (h : t.walk l segments = .ok l') (hl : t.get? l' = some .directory) :
    t.get? l = some .directory := by
  cases segments with
  | nil => rwa [walk_nil_eq_ok_iff.1 h]
  | cons s segments => exact (walk_cons_eq_ok_iff.1 h).1

/-- Empty segments are followed where the others lead to a directory. -/
theorem walk_of_filter (h : t.walk l (segments.filter fun s => !s.isEmpty) = .ok l')
    (hl : t.get? l' = some .directory) : t.walk l segments = .ok l' := by
  induction segments generalizing l with
  | nil => exact h
  | cons s segments ih =>
    cases s with
    | nil => exact walk_cons_eq_ok_iff.2 ⟨get?_of_walk h hl, .inl rfl, ih h⟩
    | cons c s =>
      obtain ⟨hdir, hfits, hrest⟩ := walk_cons_eq_ok_iff.1 h
      exact walk_cons_eq_ok_iff.2 ⟨hdir, hfits, ih hrest⟩

theorem walk_mono (hdir : ∀ k, t.get? k = some .directory → t'.get? k = some .directory)
    (h : t.walk l segments = .ok l') : t'.walk l segments = .ok l' := by
  induction segments generalizing l with
  | nil => exact h
  | cons s segments ih =>
    obtain ⟨hl, hs, hrest⟩ := walk_cons_eq_ok_iff.1 h
    exact walk_cons_eq_ok_iff.2 ⟨hdir l hl, hs, ih hrest⟩

theorem locate_eq_ok_iff :
    t.locate p = .ok l ↔
      p.checkForm = .ok () ∧ t.walk (p.origin t.workingDir) (splitAt '/' p) = .ok l := by
  rw [locate, check_eq_ok_iff]
  rfl

theorem eq_of_locate (h : t.locate p = .ok l) : l = p.destination t.workingDir :=
  eq_of_walk (locate_eq_ok_iff.1 h).2

/-! ## Single changes -/

/-- The place of something new is its destination, in a directory. -/
structure Places (t : FileTree) (p : Path) (dir : Location) (name : Text) : Prop where
  form : p.checkForm = .ok ()
  walk : t.walk (p.origin t.workingDir) ((splitAt '/' p).filter fun s => !s.isEmpty).dropLast =
    .ok dir
  directory : t.get? dir = some .directory
  last : ((splitAt '/' p).filter fun s => !s.isEmpty).getLast? = some name
  named : name ≠ Path.dot ∧ name ≠ Path.dots

theorem places_of_place {dir : Location} {name : Text} (h : t.place p = .ok (dir, some name)) :
    t.Places p dir name := by
  obtain ⟨hform, h⟩ := check_eq_ok_iff.1 h
  obtain ⟨k, hk, h⟩ := bind_eq_ok_iff.1 h
  obtain ⟨hdir, h⟩ := check_eq_ok_iff.1 h
  obtain ⟨rfl, hname⟩ := Prod.mk.inj (Except.ok.inj h)
  obtain ⟨hlast, hnamed⟩ := Option.filter_eq_some_iff.1 hname
  refine ⟨hform, hk, enter_eq_ok_iff.1 hdir, hlast, ?_⟩
  simpa using hnamed

namespace Places

variable {dir : Location} {name : Text} (h : t.Places p dir name)

include h

theorem segments_eq :
    (splitAt '/' p).filter (fun s => !s.isEmpty) =
      ((splitAt '/' p).filter fun s => !s.isEmpty).dropLast ++ [name] := by
  obtain ⟨front, hfront⟩ := List.getLast?_eq_some_iff.1 h.last
  rw [hfront, List.dropLast_concat]

theorem advance : Path.advance dir name = dir ++ [name] := by
  have hne : name ≠ [] := by
    have hmem := List.mem_of_getLast? h.last
    simpa using (List.mem_filter.1 hmem).2
  simp [Path.advance, hne, h.named]

theorem destination_eq : p.destination t.workingDir = dir ++ [name] := by
  rw [Path.destination, ← Path.foldl_advance_filter, h.segments_eq, List.foldl_append,
    ← eq_of_walk h.walk, List.foldl_cons, List.foldl_nil, h.advance]

/-- A place that does not end with a slash can be gone to. -/
theorem locate (hfits : Text.byteCount name ≤ Path.nameLimit) (hend : endsWith '/' p = false) :
    t.locate p = .ok (p.destination t.workingDir) := by
  have hne : splitAt '/' p ≠ [] := Text.splitAt_ne_nil _ _
  obtain ⟨front, s, hsplit⟩ : ∃ front s, splitAt '/' p = front ++ [s] :=
    ⟨_, _, (List.dropLast_concat_getLast hne).symm⟩
  have hs : s ≠ [] := by
    rintro rfl
    have hp := Text.joinWith_splitAt '/' p
    rw [hsplit] at hp
    obtain ⟨q, hq, rfl | ⟨r, rfl⟩⟩ := Text.joinWith_concat ['/'] front []
    · rw [hq] at hp
      subst hp
      have hnowhere := h.form
      unfold Path.checkForm at hnowhere
      simp at hnowhere
    · rw [hq, List.append_nil] at hp
      rw [← hp, endsWith, List.getLast?_concat] at hend
      simp at hend
  -- the last segment that is not empty is the last one
  have hfilter : (splitAt '/' p).filter (fun s => !s.isEmpty) =
      front.filter (fun s => !s.isEmpty) ++ [s] := by
    rw [hsplit, List.filter_append, List.filter_cons_of_pos (by simpa using hs), List.filter_nil]
  obtain rfl : s = name := by
    have hlast := h.last
    rw [hfilter, List.getLast?_concat] at hlast
    exact Option.some.inj hlast
  have hdir : t.walk (p.origin t.workingDir) front = .ok dir := by
    have hwalk := h.walk
    rw [hfilter, List.dropLast_concat] at hwalk
    exact walk_of_filter hwalk h.directory
  have hstep : t.walk dir [s] = .ok (dir ++ [s]) :=
    walk_cons_eq_ok_iff.2
      ⟨h.directory, .inr (.inr (.inr hfits)), walk_nil_eq_ok_iff.2 h.advance⟩
  rw [h.destination_eq, locate_eq_ok_iff, hsplit, walk_append_eq_ok_iff]
  exact ⟨h.form, dir, hdir, hstep⟩

end Places

/-- A directory is made at a destination where there is nothing. -/
theorem makeDir_eq_ok (h : t.makeDir p = .ok t') :
    t.get? (p.destination t.workingDir) = none ∧
      t' = t.put (p.destination t.workingDir) .directory := by
  obtain ⟨⟨dir, name?⟩, hplace, h⟩ := bind_eq_ok_iff.1 h
  cases name? with
  | none => cases h
  | some name =>
    obtain ⟨l, hl, h⟩ := bind_eq_ok_iff.1 h
    obtain ⟨-, rfl⟩ := within_eq_ok_iff.1 hl
    rw [(places_of_place hplace).destination_eq]
    split at h
    · cases h
    · rename_i hnone
      exact ⟨Option.not_isSome_iff_eq_none.1 hnone, (Except.ok.inj h).symm⟩

/-- A file is written to a destination where there is no directory, and can be found there. -/
theorem write_eq_ok {c : Content} (h : t.write p c = .ok t') :
    t.locate p = .ok (p.destination t.workingDir) ∧
      t.get? (p.destination t.workingDir) ≠ some .directory ∧
      t' = t.put (p.destination t.workingDir) (.file c) := by
  obtain ⟨⟨dir, name?⟩, hplace, h⟩ := bind_eq_ok_iff.1 h
  cases name? with
  | none => cases h
  | some name =>
    have hplaces := places_of_place hplace
    simp only at h
    split at h
    · cases h
    · rename_i hend
      obtain ⟨l, hl, h⟩ := bind_eq_ok_iff.1 h
      obtain ⟨hfits, rfl⟩ := within_eq_ok_iff.1 hl
      refine ⟨hplaces.locate hfits (Bool.eq_false_iff.2 hend), ?_⟩
      rw [hplaces.destination_eq]
      split at h
      · cases h
      · rename_i hdir
        exact ⟨hdir, (Except.ok.inj h).symm⟩

/-! ## Changes -/

/-- A change makes directories at locations of one kind, where there was nothing, and writes texts
to locations of another kind, where there was no directory; all the rest is as before. -/
structure ChangedWithin (made : Location → Prop) (written : Location → Text → Prop)
    (t t' : FileTree) : Prop where
  workingDir : t'.workingDir = t.workingDir
  get? : ∀ l, t'.get? l = t.get? l ∨
    (made l ∧ t.get? l = none ∧ t'.get? l = some .directory) ∨
    ∃ s, written l s ∧ t.get? l ≠ some .directory ∧ t'.get? l = some (.file (.text s))

theorem get?_put_self {e : Entry} (h : t.get? l ≠ some .directory) :
    ∀ k, (t.put l e).get? k = if k = l then some e else t.get? k := by
  intro k
  apply get?_put
  intro hprefix
  apply h
  rw [FileTree.get?, if_pos (List.isPrefixOf_iff_prefix.2 hprefix)]

namespace ChangedWithin

variable {made made' : Location → Prop} {written written' : Location → Text → Prop}

theorem refl (t : FileTree) : ChangedWithin made written t t :=
  ⟨rfl, fun _ => .inl rfl⟩

theorem put_directory (hl : made l) (h : t.get? l = none) :
    ChangedWithin made written t (t.put l .directory) := by
  refine ⟨rfl, fun k => ?_⟩
  have hdir : t.get? l ≠ some .directory := by
    rw [h]
    exact nofun
  rw [get?_put_self hdir]
  by_cases hk : k = l
  · subst hk
    exact .inr (.inl ⟨hl, h, if_pos rfl⟩)
  · exact .inl (if_neg hk)

theorem put_file {s : Text} (hl : written l s) (h : t.get? l ≠ some .directory) :
    ChangedWithin made written t (t.put l (.file (.text s))) := by
  refine ⟨rfl, fun k => ?_⟩
  rw [get?_put_self h]
  by_cases hk : k = l
  · subst hk
    exact .inr (.inr ⟨s, hl, h, if_pos rfl⟩)
  · exact .inl (if_neg hk)

theorem mono (h : ChangedWithin made written t t') (hm : ∀ l, made l → made' l)
    (hw : ∀ l s, written l s → written' l s) : ChangedWithin made' written' t t' := by
  refine ⟨h.workingDir, fun l => ?_⟩
  rcases h.get? l with hsame | ⟨hl, hnew⟩ | ⟨s, hs, hnew⟩
  · exact .inl hsame
  · exact .inr (.inl ⟨hm l hl, hnew⟩)
  · exact .inr (.inr ⟨s, hw l s hs, hnew⟩)

/-- What was made stays, and what was written stays or is written over. -/
theorem trans (h : ChangedWithin made written t t') (h' : ChangedWithin made written t' t'') :
    ChangedWithin made written t t'' := by
  refine ⟨h'.workingDir.trans h.workingDir, fun l => ?_⟩
  rcases h'.get? l with hsame' | ⟨hl', hnone', hnew'⟩ | ⟨s', hs', hfile', hnew'⟩
  · rw [hsame']
    exact h.get? l
  · rcases h.get? l with hsame | ⟨-, -, hnew⟩ | ⟨s, -, -, hnew⟩
    · exact .inr (.inl ⟨hl', hsame ▸ hnone', hnew'⟩)
    · rw [hnew] at hnone'
      cases hnone'
    · rw [hnew] at hnone'
      cases hnone'
  · rcases h.get? l with hsame | ⟨-, -, hnew⟩ | ⟨s, -, hfile, -⟩
    · exact .inr (.inr ⟨s', hs', hsame ▸ hfile', hnew'⟩)
    · exact absurd hnew hfile'
    · exact .inr (.inr ⟨s', hs', hfile, hnew'⟩)

theorem get?_directory (h : ChangedWithin made written t t')
    (hl : t.get? l = some .directory) : t'.get? l = some .directory := by
  rcases h.get? l with hsame | ⟨-, hnone, -⟩ | ⟨s, -, hfile, -⟩
  · rw [hsame, hl]
  · rw [hl] at hnone
    cases hnone
  · exact absurd hl hfile

theorem get?_of_not_written (h : ChangedWithin made written t t') (hl : ∀ s, ¬written l s)
    {c : Content} (hc : t.get? l = some (.file c)) : t'.get? l = some (.file c) := by
  rcases h.get? l with hsame | ⟨-, hnone, -⟩ | ⟨s, hs, -⟩
  · rw [hsame, hc]
  · rw [hc] at hnone
    cases hnone
  · exact absurd hs (hl s)

end ChangedWithin

theorem readText_eq_ok_iff {s : Text} :
    t.readText p = .ok s ↔ t.locate p = .ok (p.destination t.workingDir) ∧
      t.get? (p.destination t.workingDir) = some (.file (.text s)) := by
  rw [FileTree.readText, bind_eq_ok_iff]
  simp only [find, bind_eq_ok_iff]
  constructor
  · rintro ⟨e, ⟨l, hl, he⟩, hs⟩
    rw [← eq_of_locate hl]
    refine ⟨hl, ?_⟩
    cases hget : t.get? l with
    | none =>
      rw [hget] at he
      cases he
    | some found =>
      rw [hget] at he
      obtain rfl := Except.ok.inj he
      cases found with
      | directory => cases hs
      | file c =>
        cases c with
        | text u => rw [Except.ok.inj hs]
        | binary bytes => cases hs
  · rintro ⟨hl, hget⟩
    exact ⟨_, ⟨_, hl, by rw [hget]; rfl⟩, rfl⟩

theorem isFile_of_readText {s : Text} (h : t.readText p = .ok s) : t.isFile p = true := by
  obtain ⟨hlocate, hget⟩ := readText_eq_ok_iff.1 h
  have hfind : t.find p = .ok (.file (.text s)) := by
    rw [find, hlocate]
    change (t.get? _).elim _ _ = _
    rw [hget]
    rfl
  rw [isFile, hfind]

/-- A path leads where it led. -/
theorem ChangedWithin.locate {made : Location → Prop} {written : Location → Text → Prop}
    (h : ChangedWithin made written t t') (hp : t.locate p = .ok l) : t'.locate p = .ok l := by
  obtain ⟨hform, hwalk⟩ := locate_eq_ok_iff.1 hp
  rw [locate_eq_ok_iff, h.workingDir]
  exact ⟨hform, walk_mono (fun _ => h.get?_directory) hwalk⟩

/-- A text that is not written over can be read as before. -/
theorem ChangedWithin.readText {made : Location → Prop} {written : Location → Text → Prop}
    (h : ChangedWithin made written t t') {s : Text} (hs : t.readText p = .ok s)
    (hp : ∀ s, ¬written (p.destination t.workingDir) s) : t'.readText p = .ok s := by
  obtain ⟨hlocate, hget⟩ := readText_eq_ok_iff.1 hs
  rw [readText_eq_ok_iff, h.workingDir]
  exact ⟨h.locate hlocate, h.get?_of_not_written hp hget⟩

/-- A text can be read where it was written. -/
theorem readText_of_write {s : Text} (h : t.write p (.text s) = .ok t') :
    t'.readText p = .ok s := by
  obtain ⟨hlocate, hfile, rfl⟩ := write_eq_ok h
  have hchanged : ChangedWithin (fun _ => False) (fun _ _ => True) t
      (t.put (p.destination t.workingDir) (.file (.text s))) := .put_file trivial hfile
  rw [readText_eq_ok_iff, hchanged.workingDir, get?_put_self hfile, if_pos rfl]
  exact ⟨hchanged.locate hlocate, rfl⟩

end Graft.FileTree
