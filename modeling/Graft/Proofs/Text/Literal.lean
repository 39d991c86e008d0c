import Graft.Proofs.Text.Bytes
import Graft.Proofs.Text.Comment
import Mathlib.Data.List.Induction
import Mathlib.Order.Bounds.Basic

/-!
# Where comments begin and code ends

A place of a line is outside its literals when what stands in front of it can be read as whole
literals and characters that are no quotes.  The comment of the line begins at the first two slashes
that are outside, and its code ends in front of the blanks before that.

* `foldl_next_eq_code_iff`: the state of a scan is that of code exactly outside the literals;
* `commentStart?_eq_some_iff`, `commentStart?_eq_none_iff`: where the comment of a line begins;
* `commentCut?_byteText`: a scan of the bytes of a line finds the same place;
* `codeCutLines?_eq_some_iff`, `codeCutLines?_eq_none_iff`: where the code of some lines ends;
* `boundaries_exact`: where comments begin and where code ends, in bytes.
-/

namespace Graft.Text

/-! ## Literals -/

/-- The text ends in an odd number of backslashes, so that what follows is escaped. -/
def Escaping (t : Text) : Prop := (t.reverse.takeWhile (· == '\\')).length % 2 = 1

instance (t : Text) : Decidable (Escaping t) := inferInstanceAs (Decidable (_ = _))

/-- A literal that `q` opened is not closed in `body`, since each `q` there is escaped. -/
def Unclosed (q : Char) (body : Text) : Prop := ∀ u v, body = u ++ q :: v → Escaping u

/-- What stands in front of a place outside all literals: characters that are no quotes, and
literals, each up to the next quote of its kind that is not escaped. -/
inductive Outside : Text → Prop
  | start : Outside []
  | character {a : Text} {c : Char} : Outside a → isQuote c = false → Outside (a ++ [c])
  | literal {a : Text} {q : Char} {body : Text} : Outside a → isQuote q = true →
      Unclosed q body → ¬Escaping body → Outside (a ++ q :: (body ++ [q]))

theorem escaping_concat_iff {t : Text} {c : Char} :
    Escaping (t ++ [c]) ↔ c = '\\' ∧ ¬Escaping t := by
  rw [Escaping, Escaping, List.reverse_append, List.reverse_singleton, List.singleton_append]
  by_cases hc : c = '\\'
  · subst hc
    rw [List.takeWhile_cons_of_pos rfl, List.length_cons, and_iff_right rfl]
    omega
  · rw [List.takeWhile_cons_of_neg (by simpa using hc)]
    exact iff_of_false (by decide) fun h => hc h.1

theorem unclosed_nil (q : Char) : Unclosed q [] := by
  intro u v h
  cases u <;> cases h

theorem unclosed_concat_iff {q c : Char} {body : Text} :
    Unclosed q (body ++ [c]) ↔ Unclosed q body ∧ (c = q → Escaping body) := by
  constructor
  · intro h
    refine ⟨fun u v hb => h u (v ++ [c]) (by simp [hb]), ?_⟩
    rintro rfl
    exact h body [] rfl
  · rintro ⟨h, hc⟩ u v hb
    rcases List.eq_nil_or_concat v with rfl | ⟨v, d, rfl⟩
    · obtain ⟨rfl, hcq⟩ := List.append_inj' hb rfl
      exact hc (List.cons.inj hcq).1
    · rw [List.concat_eq_append, ← List.cons_append, ← List.append_assoc] at hb
      exact h u v (List.append_inj' hb rfl).1

/-- What the state of a scan says of the place behind `a`: it is outside, or in the literal that the
quote of the state opened. -/
def Quoting.Tells : Quoting → Text → Prop
  | .code, a => Outside a
  | .quoted q, a => ∃ b body, a = b ++ q :: body ∧ Outside b ∧ isQuote q = true ∧
      Unclosed q body ∧ ¬Escaping body
  | .escaped q, a => ∃ b body, a = b ++ q :: body ∧ Outside b ∧ isQuote q = true ∧
      Unclosed q body ∧ Escaping body

/-- One more character keeps what the state says true. -/
theorem Quoting.Tells.next {s : Quoting} {a : Text} (h : s.Tells a) (c : Char) :
    (s.next c).Tells (a ++ [c]) := by
  cases s with
  | code =>
    simp only [Quoting.next]
    split
    · rename_i hc
      exact ⟨a, [], rfl, h, hc, unclosed_nil c, by decide⟩
    · rename_i hc
      exact Outside.character h (Bool.eq_false_iff.2 hc)
  | quoted q =>
    obtain ⟨b, body, rfl, hb, hq, hopen, hescape⟩ := h
    rw [List.append_assoc, List.cons_append]
    simp only [Quoting.next]
    split
    · rename_i hc
      refine ⟨b, body ++ [c], rfl, hb, hq, unclosed_concat_iff.2 ⟨hopen, ?_⟩,
        escaping_concat_iff.2 ⟨hc, hescape⟩⟩
      rintro rfl
      rw [hc] at hq
      cases hq
    · rename_i hc
      split
      · rename_i hcq
        rw [hcq]
        exact Outside.literal hb hq hopen hescape
      · rename_i hcq
        exact ⟨b, body ++ [c], rfl, hb, hq, unclosed_concat_iff.2 ⟨hopen, fun h => absurd h hcq⟩,
          fun h => hc (escaping_concat_iff.1 h).1⟩
  | escaped q =>
    obtain ⟨b, body, rfl, hb, hq, hopen, hescape⟩ := h
    rw [List.append_assoc, List.cons_append]
    exact ⟨b, body ++ [c], rfl, hb, hq, unclosed_concat_iff.2 ⟨hopen, fun _ => hescape⟩,
      fun h => (escaping_concat_iff.1 h).2 hescape⟩

theorem tells_foldl_next (a : Text) : (a.foldl Quoting.next .code).Tells a := by
  induction a using List.reverseRecOn with
  | nil => exact Outside.start
  | append_singleton a c ih =>
    rw [List.foldl_append]
    exact ih.next c

/-- A literal that is not closed stays open, and a backslash escapes one character. -/
theorem foldl_next_of_unclosed {q : Char} {body : Text} (h : Unclosed q body) :
    body.foldl Quoting.next (.quoted q) = if Escaping body then .escaped q else .quoted q := by
  induction body using List.reverseRecOn with
  | nil => rfl
  | append_singleton body c ih =>
    obtain ⟨hopen, hc⟩ := unclosed_concat_iff.1 h
    rw [List.foldl_append, ih hopen, List.foldl_cons, List.foldl_nil]
    simp only [escaping_concat_iff]
    by_cases hescape : Escaping body
    · simp [hescape, Quoting.next]
    · have hcq : c ≠ q := fun hcq => hescape (hc hcq)
      by_cases hback : c = '\\' <;> simp [hescape, hback, hcq, Quoting.next]

/-- The state of a scan is that of code exactly outside the literals. -/
theorem foldl_next_eq_code_iff {a : Text} : a.foldl Quoting.next .code = .code ↔ Outside a := by
  constructor
  · intro h
    have htells := tells_foldl_next a
    rwa [h] at htells
  · intro h
    induction h with
    | start => rfl
    | @character a c _ hc ih =>
      rw [List.foldl_append, ih]
      simp [Quoting.next, hc]
    | @literal a q body _ hq hopen hescape ih =>
      have hback : q ≠ '\\' := by
        rintro rfl
        cases hq
      rw [List.foldl_append, ih, List.foldl_cons, List.foldl_append]
      simp [Quoting.next, hq, foldl_next_of_unclosed hopen, hescape, hback]

/-! ## Where the comment of a line begins -/

/-- A comment opens between two parts of a line, for a scan that begins in state `s`. -/
def Opens (s : Quoting) (a b : Text) : Prop :=
  a.foldl Quoting.next s = .code ∧ startsWith "//".toList b

theorem not_opens_nil (s : Quoting) (a : Text) : ¬Opens s a [] := by
  rintro ⟨-, h⟩
  cases h

theorem commentCut?_eq_none_iff {s : Quoting} {line : Text} :
    commentCut? s line = none ↔ ∀ a b, line = a ++ b → ¬Opens s a b := by
  induction line generalizing s with
  | nil =>
    refine iff_of_true rfl fun a b h => ?_
    obtain ⟨rfl, rfl⟩ := List.append_eq_nil_iff.1 h.symm
    exact not_opens_nil s []
  | cons c t ih =>
    rw [commentCut?_cons_eq_none_iff, ih]
    constructor
    · rintro ⟨hfront, hrest⟩ a b h
      rcases List.cons_eq_append_iff.1 h with ⟨rfl, rfl⟩ | ⟨a, rfl, rfl⟩
      · exact hfront
      · exact hrest a b rfl
    · intro h
      refine ⟨h [] (c :: t) rfl, ?_⟩
      rintro a b rfl
      exact h (c :: a) b rfl

/-- A comment begins where one opens and none has been opened in front. -/
theorem commentCut?_eq_some_iff {s : Quoting} {line code comment : Text} :
    commentCut? s line = some (code, comment) ↔
      line = code ++ comment ∧ Opens s code comment ∧
        ∀ a b, code = a ++ b → b ≠ [] → ¬Opens s a (b ++ comment) := by
  induction line generalizing s code with
  | nil =>
    refine iff_of_false nofun ?_
    rintro ⟨h, hopens, -⟩
    obtain ⟨rfl, rfl⟩ := List.append_eq_nil_iff.1 h.symm
    exact not_opens_nil s [] hopens
  | cons c t ih =>
    rw [commentCut?_cons_eq_some_iff]
    constructor
    · rintro (⟨hopens, rfl, rfl⟩ | ⟨hfront, u, hu, rfl⟩)
      · refine ⟨rfl, hopens, fun a b h hb => ?_⟩
        exact absurd (List.append_eq_nil_iff.1 h.symm).2 hb
      · obtain ⟨rfl, hopens, hnone⟩ := ih.1 hu
        refine ⟨rfl, hopens, fun a b h hb => ?_⟩
        rcases List.cons_eq_append_iff.1 h with ⟨rfl, rfl⟩ | ⟨a, rfl, rfl⟩
        · exact hfront
        · exact hnone a b rfl hb
    · rintro ⟨h, hopens, hnone⟩
      cases code with
      | nil =>
        obtain rfl : c :: t = comment := h
        exact .inl ⟨hopens, rfl, rfl⟩
      | cons d u =>
        obtain ⟨rfl, rfl⟩ := List.cons.inj h
        refine .inr ⟨hnone [] (c :: u) rfl (List.cons_ne_nil c u), u, ih.2 ⟨rfl, hopens, ?_⟩, rfl⟩
        rintro a b rfl hb
        exact hnone (c :: a) b rfl hb

/-- The number of bytes in front of the comment of a line. -/
def commentStart? (line : Text) : Option Nat :=
  (commentCut? .code line).map (byteCount ·.1)

theorem commentStart?_of_some {line code comment : Text}
    (h : commentCut? .code line = some (code, comment)) :
    commentStart? line = some (byteCount code) := by
  rw [commentStart?, h]
  rfl

theorem commentStart?_of_none {line : Text} (h : commentCut? .code line = none) :
    commentStart? line = none := by
  rw [commentStart?, h]
  rfl

/-- Behind the first `p` bytes of the line there are two slashes, outside its literals. -/
def SlashesAt (line : Text) (p : Nat) : Prop :=
  ∃ a b, line = a ++ '/' :: '/' :: b ∧ Outside a ∧ byteCount a = p

theorem opens_code_iff {a b : Text} :
    Opens .code a b ↔ Outside a ∧ ∃ u, b = '/' :: '/' :: u := by
  rw [Opens, foldl_next_eq_code_iff, startsWith_slashes_iff]

theorem commentStart?_eq_none_iff {line : Text} :
    commentStart? line = none ↔ ∀ p, ¬SlashesAt line p := by
  rw [commentStart?, Option.map_eq_none_iff, commentCut?_eq_none_iff]
  constructor
  · rintro h p ⟨a, b, hline, ha, -⟩
    exact h a _ hline (opens_code_iff.2 ⟨ha, b, rfl⟩)
  · rintro h a b hline hopens
    obtain ⟨ha, u, rfl⟩ := opens_code_iff.1 hopens
    exact h _ ⟨a, u, hline, ha, rfl⟩

theorem isLeast_of_commentCut? {line code comment : Text}
    (h : commentCut? .code line = some (code, comment)) :
    IsLeast {p | SlashesAt line p} (byteCount code) := by
  obtain ⟨rfl, hopens, hnone⟩ := commentCut?_eq_some_iff.1 h
  obtain ⟨hcode, u, rfl⟩ := opens_code_iff.1 hopens
  refine ⟨⟨code, u, rfl, hcode, rfl⟩, ?_⟩
  rintro p ⟨a, b, hline, ha, rfl⟩
  by_contra hlt
  obtain ⟨m, rfl, hb⟩ := exists_append_of_byteCount_le hline.symm (by omega)
  have hm : m ≠ [] := by
    rintro rfl
    rw [List.append_nil] at hlt
    exact hlt (Nat.le_refl _)
  exact hnone a m rfl hm (opens_code_iff.2 ⟨ha, b, hb.symm⟩)

theorem commentStart?_eq_some_iff {line : Text} {p : Nat} :
    commentStart? line = some p ↔ IsLeast {p | SlashesAt line p} p := by
  constructor
  · intro h
    obtain ⟨⟨code, comment⟩, hcut, rfl⟩ := Option.map_eq_some_iff.1 h
    exact isLeast_of_commentCut? hcut
  · intro h
    cases hcut : commentCut? .code line with
    | none => exact absurd h.1 (commentStart?_eq_none_iff.1 (commentStart?_of_none hcut) p)
    | some q =>
      obtain ⟨code, comment⟩ := q
      rw [commentStart?_of_some hcut, (isLeast_of_commentCut? hcut).unique h]

example : commentStart? "s: 'it\\'s // no', // yes".toList = some 18 := by decide

/-! ## Comments by the bytes of a line -/

/-- The character is none of those that a scan for comments looks at. -/
def Inert (c : Char) : Prop := isQuote c = false ∧ c ≠ '\\' ∧ c ≠ '/'

theorem inert_of_le {c : Char} (h : 128 ≤ c.toNat) : Inert c := by
  have hne {d : Char} (hd : d.toNat < 128) : c ≠ d := by
    rintro rfl
    omega
  refine ⟨?_, hne (by decide), hne (by decide)⟩
  simp only [isQuote, Bool.or_eq_false_iff, beq_eq_false_iff_ne]
  exact ⟨⟨hne (by decide), hne (by decide)⟩, hne (by decide)⟩

/-- The state after a character of no meaning: a backslash escapes no more. -/
def Quoting.unescaped : Quoting → Quoting
  | .code => .code
  | .quoted q | .escaped q => .quoted q

theorem Quoting.Valid.next_inert {s : Quoting} (hs : s.Valid) {c : Char} (hc : Inert c) :
    s.next c = s.unescaped := by
  obtain ⟨hquote, hback, -⟩ := hc
  cases s with
  | code => simp [Quoting.next, Quoting.unescaped, hquote]
  | quoted q =>
    have hcq : c ≠ q := by
      rintro rfl
      exact absurd hs (by simp [Valid, hquote])
    simp [Quoting.next, Quoting.unescaped, hback, hcq]
  | escaped q => rfl

theorem foldl_next_inert {s : Quoting} (hs : s.Valid) {ds : Text} (hne : ds ≠ [])
    (h : ∀ d ∈ ds, Inert d) : ds.foldl Quoting.next s = s.unescaped := by
  induction ds generalizing s with
  | nil => exact absurd rfl hne
  | cons d ds ih =>
    obtain ⟨hd, hds⟩ := List.forall_mem_cons.1 h
    rw [List.foldl_cons]
    by_cases hnil : ds = []
    · rw [hnil]
      exact hs.next_inert hd
    · rw [ih (hs.next d) hnil hds, hs.next_inert hd]
      cases s <;> rfl

theorem startsWith_slashes_cons_iff {c : Char} {t : Text} :
    startsWith "//".toList (c :: t) ↔ c = '/' ∧ t.head? = some '/' := by
  rw [startsWith_slashes_iff, List.head?_eq_some_iff]
  constructor
  · rintro ⟨u, hu⟩
    obtain ⟨rfl, rfl⟩ := List.cons.inj hu
    exact ⟨rfl, u, rfl⟩
  · rintro ⟨rfl, u, rfl⟩
    exact ⟨u, rfl⟩

/-- No comment begins in characters of no meaning. -/
theorem commentCut?_inert_append {ds : Text} (h : ∀ d ∈ ds, Inert d) (s : Quoting) (t : Text) :
    commentCut? s (ds ++ t) =
      (commentCut? (ds.foldl Quoting.next s) t).map
        fun (code, comment) => (ds ++ code, comment) := by
  induction ds generalizing s with
  | nil => simp
  | cons d ds ih =>
    obtain ⟨hd, hds⟩ := List.forall_mem_cons.1 h
    have hfront : ¬(s = .code ∧ startsWith "//".toList (d :: (ds ++ t))) := by
      rintro ⟨-, hslashes⟩
      obtain ⟨u, hu⟩ := startsWith_slashes_iff.1 hslashes
      exact hd.2.2 (List.cons.inj hu).1
    rw [List.cons_append, commentCut?, if_neg hfront, ih hds, Option.map_map]
    rfl

theorem head?_byteText_eq_iff {c : Char} (hc : c.toNat < 128) {t : Text} :
    (byteText t).head? = some c ↔ t.head? = some c := by
  cases t with
  | nil => exact Iff.rfl
  | cons d t =>
    rw [byteText_cons]
    by_cases hd : d.toNat < 128
    · rw [octets_of_lt hd]
      exact Iff.rfl
    · have hbytes := forall_mem_octets (Nat.le_of_not_lt hd)
      obtain ⟨b, bs, hbs⟩ := List.exists_cons_of_ne_nil (octets_ne_nil d)
      rw [hbs] at hbytes ⊢
      have hb := hbytes b List.mem_cons_self
      have hne {e : Char} (he : 128 ≤ e.toNat) : some e ≠ some c := by
        intro h
        rw [Option.some.inj h] at he
        omega
      exact iff_of_false (hne hb) (hne (Nat.le_of_not_lt hd))

/-- Places counted in the bytes of a line and of its characters stay the same behind a character. -/
theorem map_length_octets {o o' : Option (Text × Text)} (c : Char)
    (h : o.map (·.1.length) = o'.map (byteCount ·.1)) :
    (o.map fun (code, comment) => (octets c ++ code, comment)).map (·.1.length) =
      (o'.map fun (code, comment) => (c :: code, comment)).map (byteCount ·.1) := by
  cases o <;> cases o'
  · rfl
  · cases h
  · cases h
  · simpa [byteCount_cons, length_octets] using h

/-- A scan of the bytes of a line finds its comment at the same place. -/
theorem commentCut?_byteText {s : Quoting} (hs : s.Valid) (line : Text) :
    (commentCut? s (byteText line)).map (·.1.length) =
      (commentCut? s line).map (byteCount ·.1) := by
  induction line generalizing s with
  | nil => rfl
  | cons c t ih =>
    rw [byteText_cons]
    by_cases hc : c.toNat < 128
    · have hslashes : startsWith "//".toList (c :: byteText t) =
          startsWith "//".toList (c :: t) := by
        rw [Bool.eq_iff_iff, startsWith_slashes_cons_iff, startsWith_slashes_cons_iff,
          head?_byteText_eq_iff (by decide)]
      have hoctets := octets_of_lt hc
      have hshift := map_length_octets c (ih (hs.next c))
      rw [hoctets] at hshift ⊢
      rw [List.singleton_append, commentCut?, commentCut?, hslashes]
      split
      · rfl
      · exact hshift
    · have hinert := inert_of_le (Nat.le_of_not_lt hc)
      have hbytes : ∀ d ∈ octets c, Inert d := fun d hd =>
        inert_of_le (forall_mem_octets (Nat.le_of_not_lt hc) d hd)
      have hone := commentCut?_inert_append (List.forall_mem_singleton.2 hinert) s t
      rw [List.singleton_append] at hone
      rw [commentCut?_inert_append hbytes, hone, foldl_next_inert hs (octets_ne_nil c) hbytes,
        ← hs.next_inert hinert]
      exact map_length_octets c (ih (hs.next c))

/-! ## Where the code of a text ends -/

/-- The number of bytes in front of the end of a text's last code. -/
def codeEnd? (t : Text) : Option Nat := (codeCut? t).map (byteCount ·.1)

/-- Behind `code` the line `code ++ rest` has blanks, and then at most its comment. -/
def NoCodeBehind (code rest : Text) : Prop :=
  ∃ gap comment, rest = gap ++ comment ∧ isBlank gap ∧
    (comment = [] ∨ commentStart? (code ++ rest) = some (byteCount (code ++ gap)))

/-- The code of the line `code ++ rest` ends behind `code`. -/
structure EndsCode (code rest : Text) : Prop where
  /-- The character in front of the end is not blank. -/
  last : ∃ u c, code = u ++ [c] ∧ isSpace c = false
  /-- The end is in front of the comment of the line, if it has one. -/
  outside : ∀ p, commentStart? (code ++ rest) = some p → byteCount code ≤ p
  behind : NoCodeBehind code rest

/-- The last code of a text ends behind its first `e` bytes. -/
structure CodeEndsAt (t : Text) (e : Nat) : Prop where
  /-- A character begins there, or the text ends. -/
  boundary : String.Pos.Raw.IsValid (String.ofList t) ⟨e⟩
  /-- It is the end of the code of a line, and the lines behind that have none. -/
  last : ∃ before code rest after, lineChunks t = before ++ (code ++ rest) :: after ∧
    byteCount (before.flatten ++ code) = e ∧ EndsCode code rest ∧ ∀ l ∈ after, NoCodeBehind [] l

theorem commentStart?_eq_some_byteCount_iff {code comment : Text} :
    commentStart? (code ++ comment) = some (byteCount code) ↔
      commentCut? .code (code ++ comment) = some (code, comment) := by
  constructor
  · intro h
    obtain ⟨⟨code', comment'⟩, hcut, hcount⟩ := Option.map_eq_some_iff.1 h
    have happend := commentCut?_eq_append hcut
    obtain ⟨m, rfl, rfl⟩ := exists_append_of_byteCount_le happend (Nat.le_of_eq hcount.symm)
    rw [byteCount_append] at hcount
    obtain rfl : m = [] := byteCount_eq_zero_iff.1 (by omega)
    rw [hcut, List.append_nil]
    rfl
  · exact commentStart?_of_some

theorem codePart_of_some {line code comment : Text}
    (h : commentCut? .code line = some (code, comment)) : codePart line = code := by
  rw [codePart, h]

/-- In front of the comment of a line there are but blanks behind `code`. -/
theorem exists_codePart_eq_iff {code rest : Text} :
    (∃ gap, isBlank gap ∧ codePart (code ++ rest) = code ++ gap) ↔
      (∀ p, commentStart? (code ++ rest) = some p → byteCount code ≤ p) ∧
        NoCodeBehind code rest := by
  constructor
  · rintro ⟨gap, hgap, hpart⟩
    cases hcut : commentCut? .code (code ++ rest) with
    | none =>
      rw [codePart_of_none hcut] at hpart
      rw [commentStart?_of_none hcut]
      exact ⟨nofun, gap, [], by rw [List.append_cancel_left hpart, List.append_nil], hgap, .inl rfl⟩
    | some p =>
      obtain ⟨code', comment⟩ := p
      rw [codePart_of_some hcut] at hpart
      subst hpart
      have hrest := commentCut?_eq_append hcut
      rw [List.append_assoc] at hrest
      have hstart := commentStart?_of_some hcut
      refine ⟨fun p hp => ?_, gap, comment, List.append_cancel_left hrest, hgap, .inr hstart⟩
      obtain rfl := Option.some.inj (hstart.symm.trans hp)
      rw [byteCount_append]
      exact Nat.le_add_right _ _
  · rintro ⟨houtside, gap, comment, rfl, hgap, rfl | hstart⟩
    · rw [List.append_nil] at houtside ⊢
      cases hcut : commentCut? .code (code ++ gap) with
      | none => exact ⟨gap, hgap, codePart_of_none hcut⟩
      | some p =>
        obtain ⟨code', comment'⟩ := p
        have hle := houtside _ (commentStart?_of_some hcut)
        obtain ⟨m, rfl, rfl⟩ := exists_append_of_byteCount_le (commentCut?_eq_append hcut) hle
        exact ⟨m, (isBlank_append_iff.1 hgap).1, codePart_of_some hcut⟩
    · rw [← List.append_assoc, commentStart?_eq_some_byteCount_iff] at hstart
      rw [← List.append_assoc]
      exact ⟨gap, hgap, codePart_of_some hstart⟩

theorem noCodeBehind_nil_iff {l : Text} : NoCodeBehind [] l ↔ trimEnd (codePart l) = [] := by
  constructor
  · intro h
    have hfront : ∀ p, commentStart? ([] ++ l) = some p → byteCount [] ≤ p :=
      fun p _ => Nat.zero_le p
    obtain ⟨gap, hgap, hpart⟩ := exists_codePart_eq_iff.2 ⟨hfront, h⟩
    rw [List.nil_append, List.nil_append] at hpart
    rw [hpart]
    exact trimEnd_eq_nil_of_isBlank (isBlank_trimEnd hgap)
  · intro h
    have hblank : isBlank (codePart l) := by
      rw [← trimEnd_append_trailing (codePart l), h]
      exact isBlank_trailing _
    have hgap : ∃ gap, isBlank gap ∧ codePart ([] ++ l) = [] ++ gap := ⟨_, hblank, rfl⟩
    exact (exists_codePart_eq_iff.1 hgap).2

/-- The code of a line ends where what is in front of its comment does, less the blanks there. -/
theorem endsCode_iff {code rest : Text} :
    EndsCode code rest ↔ code ≠ [] ∧ trimEnd (codePart (code ++ rest)) = code := by
  constructor
  · rintro ⟨hlast, houtside, hbehind⟩
    obtain ⟨gap, hgap, hpart⟩ := exists_codePart_eq_iff.2 ⟨houtside, hbehind⟩
    rw [hpart, trimEnd_append_blank hlast hgap]
    obtain ⟨u, c, rfl, -⟩ := hlast
    exact ⟨by simp, rfl⟩
  · rintro ⟨hne, htrim⟩
    have hsolid : isBlank (codePart (code ++ rest)) = false := by
      refine Bool.eq_false_iff.2 fun hblank => hne ?_
      rw [← htrim]
      exact trimEnd_eq_nil_of_isBlank (isBlank_trimEnd hblank)
    have hlast := exists_trimEnd_last hsolid
    have hpart := trimEnd_append_trailing (codePart (code ++ rest))
    rw [htrim] at hlast hpart
    obtain ⟨houtside, hbehind⟩ := exists_codePart_eq_iff.1 ⟨_, isBlank_trailing _, hpart.symm⟩
    exact ⟨hlast, houtside, hbehind⟩

/-- A line has no code, or it ends somewhere. -/
theorem exists_endsCode (l : Text) :
    NoCodeBehind [] l ∨ ∃ code tail, l = code ++ tail ∧ EndsCode code tail := by
  by_cases h : trimEnd (codePart l) = []
  · exact .inl (noCodeBehind_nil_iff.2 h)
  · have hcode := trimEnd_prefix (codePart l)
    obtain ⟨tail, hline⟩ := hcode.trans (codePart_isPrefix l)
    refine .inr ⟨trimEnd (codePart l), tail, hline.symm, endsCode_iff.2 ⟨h, ?_⟩⟩
    rw [hline]

section Lines

variable {code tail : Text} {ls after : List Text}

/-- Of some lines none has code, or there is a last one that has. -/
theorem exists_last_endsCode (ls : List Text) :
    (∀ l ∈ ls, NoCodeBehind [] l) ∨
      ∃ before code tail after, ls = before ++ (code ++ tail) :: after ∧ EndsCode code tail ∧
        ∀ l ∈ after, NoCodeBehind [] l := by
  induction ls with
  | nil => exact .inl nofun
  | cons l ls ih =>
    rcases ih with hnone | ⟨before, code, tail, after, rfl, hends, hafter⟩
    · rcases exists_endsCode l with hl | ⟨code, tail, rfl, hends⟩
      · exact .inl (List.forall_mem_cons.2 ⟨hl, hnone⟩)
      · exact .inr ⟨[], code, tail, ls, rfl, hends, hnone⟩
    · exact .inr ⟨l :: before, code, tail, after, rfl, hends, hafter⟩

theorem codeCutLines?_of_noCode (h : ∀ l ∈ ls, NoCodeBehind [] l) : codeCutLines? ls = none := by
  induction ls with
  | nil => rfl
  | cons l ls ih =>
    obtain ⟨hl, hls⟩ := List.forall_mem_cons.1 h
    rw [codeCutLines?, ih hls]
    exact if_pos (List.isEmpty_iff.2 (noCodeBehind_nil_iff.1 hl))

theorem codeCutLines?_of_endsCode (hends : EndsCode code tail)
    (hafter : ∀ l ∈ after, NoCodeBehind [] l) (before : List Text) :
    codeCutLines? (before ++ (code ++ tail) :: after) =
      some (before.flatten ++ code, tail ++ after.flatten) := by
  induction before with
  | nil =>
    obtain ⟨hne, htrim⟩ := endsCode_iff.1 hends
    rw [List.nil_append, codeCutLines?, codeCutLines?_of_noCode hafter]
    simp [htrim, hne]
  | cons l before ih =>
    rw [List.cons_append, codeCutLines?, ih]
    simp

theorem codeCutLines?_eq_none_iff :
    codeCutLines? ls = none ↔ ∀ l ∈ ls, NoCodeBehind [] l := by
  refine ⟨fun h => ?_, codeCutLines?_of_noCode⟩
  rcases exists_last_endsCode ls with hnone | ⟨before, code, tail, after, rfl, hends, hafter⟩
  · exact hnone
  · rw [codeCutLines?_of_endsCode hends hafter] at h
    cases h

/-- The last code of some lines is that of the last line that has any. -/
theorem codeCutLines?_eq_some_iff {front rest : Text} :
    codeCutLines? ls = some (front, rest) ↔
      ∃ before code tail after, ls = before ++ (code ++ tail) :: after ∧
        front = before.flatten ++ code ∧ rest = tail ++ after.flatten ∧ EndsCode code tail ∧
        ∀ l ∈ after, NoCodeBehind [] l := by
  constructor
  · intro h
    rcases exists_last_endsCode ls with hnone | ⟨before, code, tail, after, rfl, hends, hafter⟩
    · rw [codeCutLines?_of_noCode hnone] at h
      cases h
    · rw [codeCutLines?_of_endsCode hends hafter] at h
      obtain ⟨rfl, rfl⟩ := Prod.mk.inj (Option.some.inj h)
      exact ⟨before, code, tail, after, rfl, rfl, rfl, hends, hafter⟩
  · rintro ⟨before, code, tail, after, rfl, rfl, rfl, hends, hafter⟩
    exact codeCutLines?_of_endsCode hends hafter before

end Lines

theorem codeEnd?_eq_none_iff {t : Text} :
    codeEnd? t = none ↔ ∀ l ∈ lineChunks t, NoCodeBehind [] l := by
  rw [codeEnd?, Option.map_eq_none_iff, codeCut?, codeCutLines?_eq_none_iff]

theorem codeEnd?_eq_some_iff {t : Text} {e : Nat} : codeEnd? t = some e ↔ CodeEndsAt t e := by
  constructor
  · intro h
    obtain ⟨⟨front, rest⟩, hcut, rfl⟩ := Option.map_eq_some_iff.1 h
    obtain ⟨before, code, tail, after, hlines, rfl, rfl, hends, hafter⟩ :=
      codeCutLines?_eq_some_iff.1 hcut
    refine ⟨?_, before, code, tail, after, hlines, rfl, hends, hafter⟩
    have ht : t = (before.flatten ++ code) ++ (tail ++ after.flatten) := by
      rw [← flatten_lineChunks t, hlines]
      simp
    rw [ht]
    exact isValid_byteCount _ _
  · rintro ⟨-, before, code, tail, after, hlines, rfl, hends, hafter⟩
    rw [codeEnd?, codeCut?, hlines, codeCutLines?_of_endsCode hends hafter]
    rfl

example : codeEnd? "\n  a: \"é\", // first\n  // note\n".toList = some 11 := by decide

/-- **Comments begin and code ends where they are seen to.**  The comment of a line begins at the
first two slashes outside its literals, whether the line is read by its characters or by its bytes.
A text has no code if each line is blank in front of its comment, and otherwise its code ends behind
the last character that is neither blank nor in a comment. -/
theorem boundaries_exact :
    (∀ line, (commentStart? line = none ↔ ∀ p, ¬SlashesAt line p) ∧
      (∀ p, commentStart? line = some p ↔ IsLeast {p | SlashesAt line p} p) ∧
      (commentCut? .code (byteText line)).map (·.1.length) = commentStart? line) ∧
    ∀ t, (codeEnd? t = none ↔ ∀ line ∈ lineChunks t, NoCodeBehind [] line) ∧
      ∀ e, codeEnd? t = some e ↔ CodeEndsAt t e := by
  refine ⟨fun line => ⟨commentStart?_eq_none_iff, fun p => commentStart?_eq_some_iff, ?_⟩,
    fun t => ⟨codeEnd?_eq_none_iff, fun e => codeEnd?_eq_some_iff⟩⟩
  exact commentCut?_byteText (s := .code) trivial line

end Graft.Text
