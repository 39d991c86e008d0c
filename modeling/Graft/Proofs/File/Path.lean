import Graft.File.Path
import Graft.Proofs.Text.Block
import Graft.Proofs.Text.Piece

/-!
# Where paths lead

In a tree without links a path leads to a location that can be read off its segments: dots in pairs
go up, and a name goes down.  `destination` is that location, and a path is `OnWay` to it through
those of its first segments.

* `onWay_iff`: the locations on the way are those of the path and of the directories that it is in;
* `destination_join`, `onWay_join`: names behind a directory lead below it, and on the way there is
  nothing but the way to the directory and what is below it;
* `Below.join`: joining names to a path below a directory stays below it.
-/

namespace Graft

namespace Text

/-! ## Parts between separators -/

theorem joinWith_cons_cons (c : Char) (part : Text) (parts : List Text) (sep : Text) :
    joinWith sep ((c :: part) :: parts) = c :: joinWith sep (part :: parts) := by
  cases parts <;> rfl

theorem joinWith_splitAt (sep : Char) (t : Text) : joinWith [sep] (splitAt sep t) = t := by
  induction t with
  | nil => rfl
  | cons c t ih =>
    rw [splitAt]
    obtain ⟨part, parts, hparts⟩ := List.exists_cons_of_ne_nil (splitAt_ne_nil sep t)
    rw [hparts] at ih ⊢
    split
    · rename_i hc
      simp [joinWith, ih, hc]
    · simp [joinWith_cons_cons, ih]

theorem notMem_of_mem_splitAt {sep : Char} {part t : Text} (h : part ∈ splitAt sep t) :
    sep ∉ part := by
  induction t generalizing part with
  | nil =>
    rw [List.mem_singleton.1 h]
    exact List.not_mem_nil
  | cons c t ih =>
    rw [splitAt] at h
    obtain ⟨first, parts, hparts⟩ := List.exists_cons_of_ne_nil (splitAt_ne_nil sep t)
    rw [hparts] at h ih
    split at h
    · rcases List.mem_cons.1 h with rfl | h
      · exact List.not_mem_nil
      · exact ih h
    · rename_i hc
      rcases List.mem_cons.1 h with rfl | h
      · intro hmem
        rcases List.mem_cons.1 hmem with rfl | hmem
        · exact hc rfl
        · exact ih List.mem_cons_self hmem
      · exact ih (List.mem_cons_of_mem _ h)

theorem splitAt_joinWith {sep : Char} {parts : List Text} (hne : parts ≠ [])
    (h : ∀ part ∈ parts, sep ∉ part) : splitAt sep (joinWith [sep] parts) = parts := by
  induction parts with
  | nil => exact absurd rfl hne
  | cons part parts ih =>
    obtain ⟨hpart, hparts⟩ := List.forall_mem_cons.1 h
    cases parts with
    | nil => exact splitAt_of_notMem hpart
    | cons next more =>
      have hjoin : joinWith [sep] (part :: next :: more) =
          part ++ sep :: joinWith [sep] (next :: more) := by
        simp [joinWith]
      rw [hjoin, splitAt_append, splitAt_of_notMem hpart, ih (List.cons_ne_nil _ _) hparts]
      rfl

theorem joinWith_prefix {sep : Text} {xs ys : List Text} (h : xs <+: ys) :
    joinWith sep xs <+: joinWith sep ys := by
  obtain ⟨zs, rfl⟩ := h
  by_cases hx : xs = []
  · subst hx
    exact List.nil_prefix
  by_cases hz : zs = []
  · simp [hz]
  · rw [joinWith_append hx hz, List.append_assoc]
    exact List.prefix_append _ _

end Text

namespace Path

open Text

/-! ## Locations of paths -/

/-- The names on the way that a segment leads to. -/
def advance (l : List Text) (segment : Text) : List Text :=
  if segment.isEmpty || segment == dot then l
  else if segment == dots then l.dropLast
  else l ++ [segment]

/-- Where a path is followed from, when the working directory is `w`. -/
def origin (w : List Text) (p : Path) : List Text := if p.isAbsolute then [] else w

/-- The location that a path leads to, when the working directory is `w`. -/
def destination (w : List Text) (p : Path) : List Text :=
  (splitAt '/' p).foldl advance (p.origin w)

/-- A path leads to the location `l`, or through it. -/
def OnWay (w : List Text) (p : Path) (l : List Text) : Prop :=
  ∃ segments, segments <+: splitAt '/' p ∧ segments.foldl advance (p.origin w) = l

variable {w l : List Text} {p q r a : Path} {names : List Text}

theorem onWay_destination (w : List Text) (p : Path) : p.OnWay w (p.destination w) :=
  ⟨splitAt '/' p, List.prefix_rfl, rfl⟩

theorem advance_of_not_counts {front : Bool} {segment : Text} (h : counts front segment = false) :
    advance l segment = l := by
  rw [counts, Bool.and_eq_false_iff, Bool.not_eq_false', Bool.or_eq_false_iff] at h
  rw [advance, if_pos]
  rcases h with h | ⟨-, h⟩
  · rw [h, Bool.true_or]
  · simpa using Or.inr h

/-- Empty segments lead nowhere. -/
theorem foldl_advance_filter (l : List Text) (segments : List Text) :
    (segments.filter fun s => !s.isEmpty).foldl advance l = segments.foldl advance l := by
  induction segments generalizing l with
  | nil => rfl
  | cons s segments ih =>
    cases s with
    | nil => exact ih l
    | cons c s => exact ih (advance l (c :: s))

/-! ## Directories that a path is in -/

/-- The slash in front of an absolute path. -/
def lead (p : Path) : Text := if p.isAbsolute then ['/'] else []

/-- The segments of a path behind the slash in front. -/
def body (p : Path) : List Text :=
  if p.isAbsolute then splitAt '/' (p.drop 1) else splitAt '/' p

theorem splitAt_slash (t : Text) : splitAt '/' ('/' :: t) = [] :: splitAt '/' t := by
  simp [splitAt]

theorem splitAt_eq_body (p : Path) :
    splitAt '/' p = if p.isAbsolute then [] :: p.body else p.body := by
  rw [body]
  cases p with
  | nil => rfl
  | cons c p =>
    by_cases hc : c = '/'
    · subst hc
      exact splitAt_slash p
    · simp [isAbsolute, hc]

theorem destination_eq_body (w : List Text) (p : Path) :
    p.destination w = p.body.foldl advance (p.origin w) := by
  rw [destination, splitAt_eq_body]
  split <;> rfl

theorem onWay_iff_body :
    p.OnWay w l ↔ ∃ segments, segments <+: p.body ∧ segments.foldl advance (p.origin w) = l := by
  rw [OnWay, splitAt_eq_body]
  split
  · constructor
    · rintro ⟨segments, hs, rfl⟩
      rcases List.prefix_cons_iff.1 hs with rfl | ⟨rest, rfl, hrest⟩
      · exact ⟨[], List.nil_prefix, rfl⟩
      · exact ⟨rest, hrest, rfl⟩
    · rintro ⟨segments, hs, rfl⟩
      exact ⟨[] :: segments, List.prefix_cons_iff.2 (.inr ⟨segments, rfl, hs⟩), rfl⟩
  · exact Iff.rfl

theorem lead_append_joinWith_body (p : Path) : p.lead ++ joinWith ['/'] p.body = p := by
  have h := joinWith_splitAt '/' p
  rw [splitAt_eq_body] at h
  rw [lead]
  split at h
  · rename_i habs
    obtain ⟨s, rest, hbody⟩ : ∃ s rest, p.body = s :: rest := by
      apply List.exists_cons_of_ne_nil
      rw [body, if_pos habs]
      exact splitAt_ne_nil _ _
    rw [if_pos habs]
    rw [hbody] at h ⊢
    exact h
  · rename_i habs
    rw [if_neg habs]
    exact h

theorem notMem_of_mem_body {s : Text} (h : s ∈ p.body) : '/' ∉ s := by
  rw [body] at h
  split at h <;> exact notMem_of_mem_splitAt h

section Beginnings

variable {segments : List Text} (h : segments <+: p.body)

include h

/-- A path that is cut off behind a segment begins as before. -/
theorem isAbsolute_cut : isAbsolute (p.lead ++ joinWith ['/'] segments) = p.isAbsolute := by
  by_cases habs : p.isAbsolute
  · rw [habs, lead, if_pos habs]
    rfl
  · have hlead : p.lead = [] := if_neg habs
    obtain ⟨rest, hrest⟩ : joinWith ['/'] segments <+: joinWith ['/'] p.body := joinWith_prefix h
    have hp := p.lead_append_joinWith_body
    rw [hlead, List.nil_append] at hp ⊢
    rw [hp] at hrest
    rw [Bool.eq_false_iff.2 habs]
    cases hj : joinWith ['/'] segments with
    | nil => rfl
    | cons c t =>
      rw [hj] at hrest
      rw [← hrest] at habs
      exact Bool.eq_false_iff.2 habs

theorem body_cut (hne : segments ≠ []) : body (p.lead ++ joinWith ['/'] segments) = segments := by
  have hsplit : splitAt '/' (joinWith ['/'] segments) = segments :=
    splitAt_joinWith hne fun s hs => notMem_of_mem_body (h.subset hs)
  rw [body, isAbsolute_cut h]
  split
  · rename_i habs
    rw [lead, if_pos habs]
    exact hsplit
  · rename_i habs
    rw [lead, if_neg habs]
    exact hsplit

theorem origin_cut : origin w (p.lead ++ joinWith ['/'] segments) = p.origin w := by
  rw [origin, isAbsolute_cut h, origin]

theorem destination_cut :
    destination w (p.lead ++ joinWith ['/'] segments) = segments.foldl advance (p.origin w) := by
  rw [destination_eq_body, origin_cut h]
  by_cases hne : segments = []
  · subst hne
    rw [joinWith, List.append_nil, lead]
    split <;> rfl
  · rw [body_cut h hne]

theorem onWay_cut (hl : OnWay w (p.lead ++ joinWith ['/'] segments) l) : p.OnWay w l := by
  rw [onWay_iff_body] at hl ⊢
  rw [origin_cut h] at hl
  by_cases hne : segments = []
  · subst hne
    obtain ⟨xs, hxs, rfl⟩ := hl
    have hbody : body (p.lead ++ joinWith ['/'] []) = [[]] := by
      rw [joinWith, List.append_nil, lead]
      split <;> rfl
    refine ⟨[], List.nil_prefix, ?_⟩
    rw [hbody] at hxs
    rcases List.prefix_cons_iff.1 hxs with rfl | ⟨rest, rfl, hrest⟩
    · rfl
    · rw [List.prefix_nil.1 hrest]
      rfl
  · rw [body_cut h hne] at hl
    obtain ⟨xs, hxs, rfl⟩ := hl
    exact ⟨xs, hxs.trans h, rfl⟩

end Beginnings

theorem prefix_of_mem_stems {front : Bool} {s : List Text} {segments : List Text}
    (h : s ∈ stems front segments) : s <+: segments := by
  induction segments generalizing front s with
  | nil => exact absurd h List.not_mem_nil
  | cons x rest ih =>
    have hmem : s = [x] ∨ s ∈ (stems false rest).map (x :: ·) := by
      rw [stems] at h
      split at h
      · exact List.mem_cons.1 h
      · exact .inr h
    rcases hmem with rfl | hs
    · exact ⟨rest, rfl⟩
    · obtain ⟨more, hmore, rfl⟩ := List.mem_map.1 hs
      exact List.prefix_cons_iff.2 (.inr ⟨more, rfl, ih hmore⟩)

/-- The last stem leads as far as all segments. -/
theorem foldl_last_stem (front : Bool) (segments : List Text) :
    (stems front segments = [] ∧ ∀ l, segments.foldl advance l = l) ∨
      ∃ shorter s, stems front segments = shorter ++ [s] ∧
        ∀ l, s.foldl advance l = segments.foldl advance l := by
  induction segments generalizing front with
  | nil => exact .inl ⟨rfl, fun _ => rfl⟩
  | cons x rest ih =>
    rw [stems]
    rcases ih false with ⟨hs, hfold⟩ | ⟨shorter, s, hs, hfold⟩
    · rw [hs]
      by_cases hx : counts front x
      · rw [if_pos hx]
        exact .inr ⟨[], [x], rfl, fun l => (hfold (advance l x)).symm⟩
      · rw [if_neg hx]
        refine .inl ⟨rfl, fun l => ?_⟩
        rw [List.foldl_cons, advance_of_not_counts (Bool.eq_false_iff.2 hx), hfold]
    · right
      rw [hs, List.map_append]
      by_cases hx : counts front x
      · rw [if_pos hx]
        exact ⟨[x] :: shorter.map (x :: ·), x :: s, rfl, fun l => hfold (advance l x)⟩
      · rw [if_neg hx]
        exact ⟨shorter.map (x :: ·), x :: s, rfl, fun l => hfold (advance l x)⟩

/-- The first segments of a list lead as far as one of its stems, or nowhere. -/
theorem foldl_prefix_stem (front : Bool) {xs segments : List Text} (h : xs <+: segments) :
    (∀ l, xs.foldl advance l = l) ∨
      ∃ s ∈ stems front segments, ∀ l, s.foldl advance l = xs.foldl advance l := by
  induction segments generalizing front xs with
  | nil =>
    rw [List.prefix_nil.1 h]
    exact .inl fun _ => rfl
  | cons x rest ih =>
    rcases List.prefix_cons_iff.1 h with rfl | ⟨ys, rfl, hys⟩
    · exact .inl fun _ => rfl
    rw [stems]
    rcases ih false hys with hfold | ⟨s, hs, hfold⟩
    · by_cases hx : counts front x
      · rw [if_pos hx]
        exact .inr ⟨[x], List.mem_cons_self, fun l => (hfold (advance l x)).symm⟩
      · refine .inl fun l => ?_
        rw [List.foldl_cons, advance_of_not_counts (Bool.eq_false_iff.2 hx), hfold]
    · refine .inr ⟨x :: s, ?_, fun l => hfold (advance l x)⟩
      have hmem : x :: s ∈ (stems false rest).map (x :: ·) := List.mem_map.2 ⟨s, hs, rfl⟩
      split
      · exact List.mem_cons_of_mem _ hmem
      · exact hmem

/-- A directory that a path is in is what is in front of all segments, or ends with one that counts,
and another one follows. -/
theorem mem_ancestors_iff :
    a ∈ p.ancestors ↔ stems (!p.isAbsolute) p.body ≠ [] ∧
      (a = p.lead ∨
        ∃ s ∈ (stems (!p.isAbsolute) p.body).dropLast, a = p.lead ++ joinWith ['/'] s) := by
  have hancestors : p.ancestors =
      if (stems (!p.isAbsolute) p.body).isEmpty then []
      else (stems (!p.isAbsolute) p.body).dropLast.reverse.map (p.lead ++ joinWith ['/'] ·) ++
        [p.lead] := by
    rw [ancestors, body, lead]
    by_cases habs : p.isAbsolute <;> simp [habs]
  rw [hancestors]
  by_cases hs : stems (!p.isAbsolute) p.body = []
  · simp [hs]
  · rw [if_neg (mt List.isEmpty_iff.1 hs), List.mem_append, List.mem_map, List.mem_singleton]
    simp only [List.mem_reverse, ne_eq, hs, not_false_eq_true, true_and, eq_comm (a := a)]
    exact or_comm

theorem onWay_of_mem_ancestors (h : a ∈ p.ancestors) (hl : a.OnWay w l) : p.OnWay w l := by
  obtain ⟨-, rfl | ⟨s, hs, rfl⟩⟩ := mem_ancestors_iff.1 h
  · have hnil : [] <+: p.body := List.nil_prefix
    apply onWay_cut hnil
    rwa [joinWith, List.append_nil]
  · exact onWay_cut (prefix_of_mem_stems (List.dropLast_subset _ hs)) hl

/-- What is on the way is where the path leads, or where a directory is that it is in. -/
theorem exists_of_onWay (h : p.OnWay w l) : ∃ a ∈ p :: p.ancestors, a.destination w = l := by
  obtain ⟨xs, hxs, rfl⟩ := onWay_iff_body.1 h
  have hnearest := foldl_last_stem (!p.isAbsolute) p.body
  rcases foldl_prefix_stem (!p.isAbsolute) hxs with hfold | ⟨s, hs, hfold⟩
  · -- nothing that counts is gone through
    rw [hfold]
    rcases hnearest with ⟨-, hall⟩ | ⟨shorter, last, hstems, -⟩
    · refine ⟨p, List.mem_cons_self, ?_⟩
      rw [destination_eq_body, hall]
    · refine ⟨p.lead, List.mem_cons_of_mem _ (mem_ancestors_iff.2 ⟨?_, .inl rfl⟩), ?_⟩
      · rw [hstems]
        exact List.append_ne_nil_of_right_ne_nil _ (List.cons_ne_nil _ _)
      · have hlead := destination_cut (w := w) (List.nil_prefix (l := p.body))
        rwa [joinWith, List.append_nil] at hlead
  · rw [← hfold]
    rcases hnearest with ⟨hnone, -⟩ | ⟨shorter, last, hstems, hall⟩
    · rw [hnone] at hs
      exact absurd hs List.not_mem_nil
    have hprefix := prefix_of_mem_stems hs
    rw [hstems] at hs
    rcases List.mem_append.1 hs with hs | hs
    · refine ⟨_, List.mem_cons_of_mem _ (mem_ancestors_iff.2 ⟨?_, .inr ⟨s, ?_, rfl⟩⟩),
        destination_cut hprefix⟩
      · rw [hstems]
        exact List.append_ne_nil_of_right_ne_nil _ (List.cons_ne_nil _ _)
      · rw [hstems, List.dropLast_concat]
        exact hs
    · refine ⟨p, List.mem_cons_self, ?_⟩
      rw [List.mem_singleton.1 hs, destination_eq_body, hall]

/-- The locations on the way of a path are where it leads and where the directories are that it is
in. -/
theorem onWay_iff : p.OnWay w l ↔ ∃ a ∈ p :: p.ancestors, a.destination w = l := by
  constructor
  · exact exists_of_onWay
  · rintro ⟨a, ha, rfl⟩
    rcases List.mem_cons.1 ha with rfl | ha
    · exact a.onWay_destination w
    · exact onWay_of_mem_ancestors ha (a.onWay_destination w)

/-! ## Joined paths -/

theorem splitAt_join (p : Path) (hq : q.isAbsolute = false) :
    ∃ xs, splitAt '/' (p.join q) = xs ++ splitAt '/' q ∧
      (splitAt '/' p = xs ∨ splitAt '/' p = xs ++ [[]]) := by
  rw [join, if_neg (Bool.eq_false_iff.1 hq)]
  split
  · rename_i hend
    rcases Bool.or_eq_true_iff.1 hend with hnil | hslash
    · rw [List.isEmpty_iff.1 hnil]
      exact ⟨[], rfl, .inr rfl⟩
    · obtain ⟨front, rfl⟩ := List.getLast?_eq_some_iff.1 (beq_iff_eq.1 hslash)
      refine ⟨splitAt '/' front, ?_, .inr (splitAt_append '/' front [])⟩
      rw [List.append_assoc]
      exact splitAt_append '/' front q
  · exact ⟨splitAt '/' p, splitAt_append '/' p q, .inl rfl⟩

theorem isAbsolute_join (hp : p ≠ []) (hq : q.isAbsolute = false) :
    (p.join q).isAbsolute = p.isAbsolute := by
  obtain ⟨c, p, rfl⟩ := List.exists_cons_of_ne_nil hp
  rw [join, if_neg (Bool.eq_false_iff.1 hq)]
  split <;> rfl

theorem origin_join (hq : q.isAbsolute = false) : (p.join q).origin w = p.origin w := by
  by_cases hp : p = []
  · have hjoin : p.join q = q := by
      rw [hp, join]
      split <;> rfl
    rw [hjoin, hp, origin, if_neg (Bool.eq_false_iff.1 hq)]
    rfl
  · rw [origin, isAbsolute_join hp hq, origin]

theorem join_eq (p : Path) (hq : q.isAbsolute = false) :
    p.join q = if p.isEmpty || endsWith '/' p then p ++ q else p ++ '/' :: q := by
  rw [join, if_neg (Bool.eq_false_iff.1 hq)]

theorem endsWith_append (c : Char) (t : Text) {u : Text} (hu : u ≠ []) :
    endsWith c (t ++ u) = endsWith c u := by
  rw [endsWith, endsWith, List.getLast?_append, List.getLast?_eq_some_getLast hu, Option.some_or]

/-- A path in a joined one is joined part by part. -/
theorem join_join (hq : q ≠ []) (hqa : q.isAbsolute = false) (hra : r.isAbsolute = false) :
    (p.join q).join r = p.join (q.join r) := by
  have hqr : (q.join r).isAbsolute = false := by rw [isAbsolute_join hq hra, hqa]
  have hslash : endsWith '/' (p ++ '/' :: q) = endsWith '/' q := by
    rw [List.append_cons, endsWith_append _ _ hq]
  rw [join_eq _ hra, join_eq _ hqr, join_eq p hqa, join_eq q hra]
  by_cases hp : p.isEmpty || endsWith '/' p
  · rw [if_pos hp, if_pos hp, endsWith_append _ _ hq]
    by_cases hend : endsWith '/' q <;> simp [hq, hend]
  · rw [if_neg hp, if_neg hp, hslash]
    by_cases hend : endsWith '/' q <;> simp [hq, hend]

/-! ## Names -/

/-- A text that stands for a name, wherever it is a segment of a path. -/
structure IsName (n : Text) : Prop where
  nonempty : n ≠ []
  noSlash : '/' ∉ n
  notDot : n ≠ dot
  notDots : n ≠ dots

theorem IsName.advance {n : Text} (h : IsName n) (l : List Text) :
    Path.advance l n = l ++ [n] := by
  obtain ⟨hne, -, hdot, hdots⟩ := h
  simp [Path.advance, hne, hdot, hdots]

theorem countingSegments_append (front : Bool) (xs ys : List Text) :
    countingSegments front (xs ++ ys) =
      countingSegments front xs ++ countingSegments (front && xs.isEmpty) ys := by
  induction xs generalizing front with
  | nil => rw [List.nil_append, List.isEmpty_nil, Bool.and_true]; rfl
  | cons x xs ih =>
    rw [List.cons_append, countingSegments, countingSegments, ih]
    have hrest : (front && (x :: xs).isEmpty) = false := by simp
    rw [hrest, Bool.false_and]
    split <;> rfl

theorem mem_countingSegments {front : Bool} {s : Text} {segments : List Text}
    (h : s ∈ countingSegments front segments) : s ∈ segments ∧ s ≠ [] := by
  induction segments generalizing front with
  | nil => exact absurd h List.not_mem_nil
  | cons x rest ih =>
    have hmem : (counts front x ∧ s = x) ∨ s ∈ countingSegments false rest := by
      rw [countingSegments] at h
      split at h
      · rename_i hx
        exact (List.mem_cons.1 h).imp_left fun he => ⟨hx, he⟩
      · exact .inr h
    rcases hmem with ⟨hx, rfl⟩ | h
    · refine ⟨List.mem_cons_self, ?_⟩
      rintro rfl
      exact Bool.false_ne_true hx
    · exact ⟨List.mem_cons_of_mem _ (ih h).1, (ih h).2⟩

/-- A dot counts only in front of all others. -/
theorem countingSegments_false {segments : List Text}
    (h : dot ∉ countingSegments true segments) :
    countingSegments false segments = countingSegments true segments := by
  cases segments with
  | nil => rfl
  | cons x rest =>
    have hcounts : counts false x = counts true x := by
      by_cases hx : x = dot
      · subst hx
        exact absurd List.mem_cons_self h
      · simp [counts, hx]
    rw [countingSegments, countingSegments, hcounts]

/-- Segments that are names when they count lead down by as much. -/
theorem foldl_advance_of_names {front : Bool} {segments : List Text}
    (h : ∀ s ∈ countingSegments front segments, IsName s) (l : List Text) :
    segments.foldl advance l = l ++ countingSegments front segments := by
  induction segments generalizing front l with
  | nil => exact (List.append_nil l).symm
  | cons x rest ih =>
    rw [countingSegments] at h ⊢
    by_cases hx : counts front x
    · rw [if_pos hx] at h ⊢
      obtain ⟨hname, hrest⟩ := List.forall_mem_cons.1 h
      rw [List.foldl_cons, hname.advance, ih hrest, List.append_assoc, List.singleton_append]
    · rw [if_neg hx] at h ⊢
      rw [List.foldl_cons, advance_of_not_counts (Bool.eq_false_iff.2 hx), ih h]

theorem ofSegment_eq_normal {s n : Text} (h : Component.ofSegment s = .normal n) :
    s = n ∧ s ≠ dot ∧ s ≠ dots := by
  rw [Component.ofSegment] at h
  split at h
  · cases h
  · rename_i hdot
    split at h
    · cases h
    · rename_i hdots
      exact ⟨Component.normal.inj h, hdot, hdots⟩

theorem ofSegment_of_isName {n : Text} (h : IsName n) : Component.ofSegment n = .normal n := by
  rw [Component.ofSegment, if_neg h.notDot, if_neg h.notDots]

theorem isName_of_mem_components {n : Text} (h : .normal n ∈ p.components) : IsName n := by
  have hmem : ∃ front, Component.normal n ∈
      (countingSegments front (splitAt '/' p)).map Component.ofSegment := by
    rw [components] at h
    split at h
    · rcases List.mem_cons.1 h with h | h
      · cases h
      · exact ⟨false, h⟩
    · exact ⟨true, h⟩
  obtain ⟨front, hmem⟩ := hmem
  obtain ⟨s, hs, he⟩ := List.mem_map.1 hmem
  obtain ⟨rfl, hdot, hdots⟩ := ofSegment_eq_normal he
  obtain ⟨hsplit, hne⟩ := mem_countingSegments hs
  exact ⟨hne, notMem_of_mem_splitAt hsplit, hdot, hdots⟩

theorem isAbsolute_of_names (h : p.components = names.map .normal) : p.isAbsolute = false := by
  cases habs : p.isAbsolute with
  | false => rfl
  | true =>
    rw [components, if_pos habs] at h
    cases names with
    | nil => cases h
    | cons n names => cases (List.cons.inj h).1

theorem isName_of_names (h : p.components = names.map .normal) : ∀ n ∈ names, IsName n := by
  intro n hn
  apply isName_of_mem_components
  rw [h]
  exact List.mem_map.2 ⟨n, hn, rfl⟩

/-- The segments that count in a path of names are the names. -/
theorem countingSegments_of_names (h : p.components = names.map .normal) :
    countingSegments true (splitAt '/' p) = names := by
  rw [components, if_neg (Bool.eq_false_iff.1 (isAbsolute_of_names h))] at h
  generalize countingSegments true (splitAt '/' p) = xs at h
  induction xs generalizing names with
  | nil => exact (List.map_eq_nil_iff.1 h.symm).symm
  | cons x xs ih =>
    cases names with
    | nil => cases h
    | cons n names =>
      obtain ⟨hx, hxs⟩ := List.cons.inj h
      rw [(ofSegment_eq_normal hx).1, ih hxs]

/-- Names joined by slashes make a path of these names. -/
theorem components_joinWith (hne : names ≠ []) (h : ∀ n ∈ names, IsName n) :
    components (joinWith ['/'] names) = names.map .normal := by
  have hall : ∀ front, countingSegments front names = names := by
    clear hne
    induction names with
    | nil => exact fun _ => rfl
    | cons n names ih =>
      intro front
      obtain ⟨hn, hnames⟩ := List.forall_mem_cons.1 h
      have hcounts : counts front n := by simp [counts, hn.nonempty, hn.notDot]
      rw [countingSegments, if_pos hcounts, ih hnames]
  have hrelative : isAbsolute (joinWith ['/'] names) = false := by
    obtain ⟨n, more, rfl⟩ := List.exists_cons_of_ne_nil hne
    obtain ⟨hn, -⟩ := List.forall_mem_cons.1 h
    obtain ⟨c, n, rfl⟩ := List.exists_cons_of_ne_nil hn.nonempty
    have hc : c ≠ '/' := fun hc => hn.noSlash (hc ▸ List.mem_cons_self)
    rw [joinWith_cons_cons, isAbsolute, List.head?_cons]
    simpa using hc
  rw [components, if_neg (Bool.eq_false_iff.1 hrelative),
    splitAt_joinWith hne fun n hn => (h n hn).noSlash, hall]
  apply List.map_congr_left
  intro n hn
  exact ofSegment_of_isName (h n hn)

theorem foldl_origin_join (hq : q.isAbsolute = false) :
    ∃ xs, splitAt '/' (p.join q) = xs ++ splitAt '/' q ∧ xs <+: splitAt '/' p ∧
      xs.foldl advance ((p.join q).origin w) = p.destination w := by
  obtain ⟨xs, hsplit, hp⟩ := splitAt_join p hq
  refine ⟨xs, hsplit, ?_, ?_⟩
  · rcases hp with hp | hp
    · exact ⟨[], by rw [hp, List.append_nil]⟩
    · exact ⟨[[]], hp.symm⟩
  · rw [origin_join hq, destination]
    rcases hp with hp | hp <;> rw [hp]
    rw [List.foldl_append]
    rfl

/-- Names behind a path lead down from where it leads. -/
theorem destination_join (h : q.components = names.map .normal) :
    (p.join q).destination w = p.destination w ++ names := by
  obtain ⟨xs, hsplit, -, hfold⟩ := foldl_origin_join (p := p) (w := w) (isAbsolute_of_names h)
  have hnames := countingSegments_of_names h
  have hdown : (splitAt '/' q).foldl advance (p.destination w) =
      p.destination w ++ countingSegments true (splitAt '/' q) := by
    apply foldl_advance_of_names
    rw [hnames]
    exact isName_of_names h
  rw [destination, hsplit, List.foldl_append, hfold, hdown, hnames]

/-- On the way of a path with names behind there is the way of the path, and what is below it. -/
theorem onWay_join (h : q.components = names.map .normal) (hl : (p.join q).OnWay w l) :
    p.OnWay w l ∨ ∃ ns, ns ≠ [] ∧ l = p.destination w ++ ns := by
  obtain ⟨xs, hsplit, hxs, hfold⟩ := foldl_origin_join (p := p) (w := w) (isAbsolute_of_names h)
  obtain ⟨segments, ⟨zs, hs⟩, rfl⟩ := hl
  rw [hsplit] at hs
  rcases List.append_eq_append_iff.1 hs with ⟨more, rfl, -⟩ | ⟨ys, rfl, hzs⟩
  · refine .inl ⟨segments, (List.prefix_append _ _).trans hxs, ?_⟩
    rw [origin_join (isAbsolute_of_names h)]
  · have hall := countingSegments_of_names h
    rw [hzs, countingSegments_append] at hall
    have hnames : ∀ s ∈ countingSegments true ys, IsName s := by
      intro s hs
      apply isName_of_names h
      rw [← hall]
      exact List.mem_append_left _ hs
    rw [List.foldl_append, hfold, foldl_advance_of_names hnames]
    by_cases hnone : countingSegments true ys = []
    · rw [hnone, List.append_nil]
      exact .inl (p.onWay_destination w)
    · exact .inr ⟨_, hnone, rfl⟩

/-- Paths of names are joined by joining their names. -/
theorem components_join {more : List Text} (hne : names ≠ [])
    (hq : q.components = names.map .normal) (hr : r.components = more.map .normal) :
    (q.join r).components = (names ++ more).map .normal := by
  have hqa := isAbsolute_of_names hq
  have hra := isAbsolute_of_names hr
  have hmore := countingSegments_of_names hr
  have hqne : q ≠ [] := by
    rintro rfl
    exact hne (List.map_eq_nil_iff.1 hq.symm)
  have hdot : dot ∉ countingSegments true (splitAt '/' r) := by
    rw [hmore]
    intro hmem
    exact (isName_of_names hr _ hmem).notDot rfl
  obtain ⟨xs, hsplit, hcut⟩ := splitAt_join q hra
  have hxs : countingSegments true xs = names := by
    rw [← countingSegments_of_names hq]
    rcases hcut with hcut | hcut <;> rw [hcut]
    rw [countingSegments_append]
    exact (List.append_nil _).symm
  have hxne : xs.isEmpty = false := by
    apply List.isEmpty_eq_false_iff.2
    rintro rfl
    exact hne hxs.symm
  rw [components, if_neg (Bool.eq_false_iff.1 (by rw [isAbsolute_join hqne hra, hqa])), hsplit,
    countingSegments_append, hxs, hxne, Bool.and_false, countingSegments_false hdot, hmore]
  apply List.map_congr_left
  intro n hn
  apply ofSegment_of_isName
  rcases List.mem_append.1 hn with hn | hn
  · exact isName_of_names hq n hn
  · exact isName_of_names hr n hn

/-- A path is a directory's joined with names, of which there is at least one. -/
def Below (dir p : Path) : Prop :=
  ∃ q names, names ≠ [] ∧ q.components = names.map .normal ∧ p = dir.join q

theorem Below.join {dir : Path} (h : Below dir p) (hq : q.components = names.map .normal) :
    Below dir (p.join q) := by
  obtain ⟨r, ns, hne, hr, rfl⟩ := h
  refine ⟨r.join q, ns ++ names, ?_, components_join hne hr hq, ?_⟩
  · exact List.append_ne_nil_of_left_ne_nil hne _
  · apply join_join
    · rintro rfl
      exact hne (List.map_eq_nil_iff.1 hr.symm)
    · exact isAbsolute_of_names hr
    · exact isAbsolute_of_names hq

end Path

end Graft
