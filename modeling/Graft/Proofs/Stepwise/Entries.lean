import Graft.Proofs.Splice.Declaration

/-!
# Entries in several steps

Entries that end in code leave a body that more of them are added to as if they had come with the
first.

* `EndsInCode.codeCut?_eq`: where a text ends in code, nothing is behind its last code;
* `contains_extended`: entries that do not close the array leave it open;
* `extended_extended`: two blocks that are added one after the other are added as one;
* `exists_resumed`: the body is found again.
-/

namespace Graft.Text

/-! ## Texts that end in code -/

theorem codeCutLines?_concat {line : Text} (hcode : commentCut? .code line = none)
    (hlast : ∃ u c, line = u ++ [c] ∧ isSpace c = false) (ls : List Text) :
    codeCutLines? (ls ++ [line]) = some (ls.flatten ++ line, []) := by
  induction ls with
  | nil =>
    have hpart : codePart line = line := by rw [codePart, hcode]
    have htrim := trimEnd_of_last hlast
    obtain ⟨u, c, rfl, -⟩ := hlast
    simp [codeCutLines?, hpart, htrim]
  | cons l ls ih =>
    rw [List.cons_append, codeCutLines?, ih]
    simp

/-- The last line has no comment, and does not end with a blank. -/
structure EndsInCode (t : Text) : Prop where
  uncommented : commentCut? .code (lastLine t) = none
  last : ∃ u c, t = u ++ [c] ∧ isSpace c = false

namespace EndsInCode

variable {p t : Text}

theorem append (hp : lastLine p = []) (h : EndsInCode t) : EndsInCode (p ++ t) := by
  obtain ⟨hcode, u, c, rfl, hc⟩ := h
  exact ⟨by rwa [lastLine_append hp], p ++ u, c, (List.append_assoc _ _ _).symm, hc⟩

theorem not_isBlank (h : EndsInCode t) : ¬ isBlank t := by
  obtain ⟨u, c, rfl, hc⟩ := h.last
  intro hb
  exact notMem_of_isBlank hb hc (by simp)

theorem comma (h : EndsInCode t) : EndsInCode (t ++ [',']) := by
  refine ⟨?_, t, ',', rfl, rfl⟩
  rw [lastLine_concat rfl]
  exact commentCut?_append_of_notMem h.uncommented (by decide)

/-- Where a text ends in code, nothing is behind its last code. -/
theorem codeCut?_eq (h : EndsInCode t) : codeCut? t = some (t, []) := by
  obtain ⟨hcode, u, c, rfl, hc⟩ := h
  have hlast := lastLine_concat (u := u) hc
  have hne : lastLine (u ++ [c]) ≠ [] := by simp [hlast]
  have hchunks : lineChunks (u ++ [c]) =
      lineChunks (beforeLastLine (u ++ [c])) ++ [lastLine (u ++ [c])] := by
    conv => lhs; rw [← beforeLastLine_append_lastLine (u ++ [c])]
    rw [lineChunks_append (lastLine_beforeLastLine _),
      lineChunks_of_oneLine hne (notMem_lastLine _)]
  rw [codeCut?, hchunks, codeCutLines?_concat hcode ⟨_, c, hlast, hc⟩, flatten_lineChunks,
    beforeLastLine_append_lastLine]

end EndsInCode

end Graft.Text

namespace Graft.Splice.Entries

open Text

/-! ## Two blocks -/

section
variable {front added : Text} (hf : lastLine front = []) (ha : EndsInCode added)
include hf ha

/-- A block goes behind code that ends without a comma, which it is given. -/
theorem extended_code (hc : endsWith ',' added = false) (more : Text) :
    extended (front ++ added ++ ['\n']) more =
      front ++ (added ++ ",\n\n".toList ++ more) ++ ['\n'] := by
  have hcode := ha.append hf
  have hends : ¬ endsWith ',' (front ++ added) := by
    obtain ⟨u, c, rfl, -⟩ := ha.last
    rw [← List.append_assoc, endsWith_concat]
    rw [endsWith_concat] at hc
    simp [hc]
  have hsep : ",\n\n".toList = ',' :: "\n\n".toList := rfl
  simp only [extended, trimEnd_append_blank hcode.last (rfl : isBlank ['\n']),
    if_neg hcode.not_isBlank, hcode.codeCut?_eq, if_neg hends, hsep]
  simp only [List.append_assoc, List.cons_append, List.nil_append, List.append_nil]

/-- A block goes behind a comma that ends the body, and is ended by one. -/
theorem extended_comma (more : Text) :
    extended (front ++ added ++ ",\n".toList) more =
      front ++ (added ++ ",\n\n".toList ++ more) ++ ",\n".toList := by
  have hcode := (ha.append hf).comma
  have hends : endsWith ',' (front ++ added ++ [',']) := by rw [endsWith_concat]; rfl
  have hsep : ",\n\n".toList = ',' :: "\n\n".toList ∧ ",\n".toList = [','] ++ ['\n'] := by
    decide
  rw [hsep.2, ← List.append_assoc _ [','], extended, trimEnd_append_blank hcode.last rfl,
    if_neg hcode.not_isBlank, hcode.codeCut?_eq]
  simp only [if_pos hends, hsep]
  simp only [List.append_assoc, List.cons_append, List.nil_append]

end

theorem unclosed_separated_iff {c : Char} (hc : c ∉ close) {a b : Text} :
    contains close (a ++ [c] ++ b) = false ↔
      contains close a = false ∧ contains close b = false := by
  simp only [← Bool.not_eq_true, contains_separated_iff hc (by decide), not_or]

/-- A block goes behind whole lines, which do not close the array unless the body does. -/
theorem exists_front (body : Text) :
    ∃ front ending, lastLine front = [] ∧ (ending = ['\n'] ∨ ending = ",\n".toList) ∧
      (∀ added, extended body added = front ++ added ++ ending) ∧
      (contains close body = false → contains close front = false) := by
  have hnewline : '\n' ∉ close := by decide
  have hnil : contains close [] = false := by decide
  have hgap : "\n\n".toList = ['\n'] ++ ['\n'] := rfl
  have hopen : ∀ {p}, contains close p = false → contains close (p ++ ['\n']) = false := by
    intro p hp
    rw [← List.append_nil (p ++ ['\n']), unclosed_separated_iff hnewline]
    exact ⟨hp, hnil⟩
  have hkept : contains close body = false → contains close (trimEnd body) = false := by
    intro h
    refine Bool.eq_false_iff.2 fun hc => ?_
    rw [← trimEnd_append_trailing body, contains_append_left hc] at h
    cases h
  by_cases hb : isBlank (trimEnd body)
  · refine ⟨['\n'], ['\n'], rfl, .inl rfl, fun added => ?_, fun _ => hopen (p := []) hnil⟩
    rw [extended, if_pos hb]
    rfl
  · cases hcut : codeCut? (trimEnd body) with
    | none =>
      refine ⟨trimEnd body ++ ['\n'], ['\n'], lastLine_concat_newline _, .inl rfl, fun added => ?_,
        fun h => hopen (hkept h)⟩
      simp only [extended, if_neg hb, hcut]
    | some p =>
      obtain ⟨code, rest⟩ := p
      obtain ⟨hcode, -⟩ := codeCut?_spec hcut
      by_cases hc : endsWith ',' code
      · refine ⟨trimEnd body ++ ['\n'] ++ ['\n'], ",\n".toList, lastLine_concat_newline _, .inr rfl,
          fun added => ?_, fun h => hopen (hopen (hkept h))⟩
        simp only [extended, if_neg hb, hcut, if_pos hc, hgap, List.append_assoc]
      · refine ⟨code ++ [','] ++ rest ++ ['\n'] ++ ['\n'], ['\n'], lastLine_concat_newline _, .inl rfl,
          fun added => ?_, fun h => hopen (hopen ?_)⟩
        · simp only [extended, if_neg hb, hcut, if_neg hc, hgap, List.append_assoc]
        · rw [unclosed_separated_iff (by decide)]
          have h := hkept h
          rw [hcode, ← Bool.not_eq_true, contains_append_iff, not_or, not_or] at h
          exact ⟨Bool.eq_false_iff.2 h.1, Bool.eq_false_iff.2 h.2.1⟩

/-- Two blocks that are added one after the other are added as one. -/
theorem extended_extended {added : Text} (ha : EndsInCode added) (hc : endsWith ',' added = false)
    (body more : Text) :
    extended (extended body added) more = extended body (added ++ ",\n\n".toList ++ more) := by
  obtain ⟨front, ending, hf, hending, heq, -⟩ := exists_front body
  rw [heq, heq]
  rcases hending with rfl | rfl
  · exact extended_code hf ha hc more
  · exact extended_comma hf ha more

/-- A block that does not close the array leaves it open. -/
theorem unclosed_extended {body added : Text} (hb : contains close body = false)
    (ha : contains close added = false) : contains close (extended body added) = false := by
  obtain ⟨front, ending, hf, hending, heq, hfront⟩ := exists_front body
  have hstart : ¬ Straddles close front added :=
    not_straddles_of_lineStart hf (by decide)
  have hadded : contains close (front ++ added) = false := by
    rw [← Bool.not_eq_true, contains_append_iff, hfront hb, ha]
    simpa using hstart
  have hnil : contains close [] = false := by decide
  rw [heq]
  rcases hending with rfl | rfl
  · rw [← List.append_nil (_ ++ ['\n']), unclosed_separated_iff (by decide)]
    exact ⟨hadded, hnil⟩
  · have hcut : ",\n".toList = [','] ++ ['\n'] := rfl
    rw [hcut, ← List.append_assoc, unclosed_separated_iff (by decide)]
    exact ⟨hadded, by decide⟩

/-! ## Blocks of entries -/

/-- An entry that is not blank, does not close the array, and ends in code without a comma. -/
structure Settled (x : Text) : Prop where
  solid : isBlank x = false
  unclosed : contains close x = false
  uncommented : commentCut? .code (lastLine (trimEnd x)) = none
  uncommaed : endsWith ',' (trimEnd x) = false

section
variable {indent : Text} (hi : indent.all isIndent)
include hi

theorem Settled.indentBlock {x : Text} (h : Settled x) :
    EndsInCode (indentBlock x indent) ∧ endsWith ',' (Text.indentBlock x indent) = false := by
  have hblank : isBlank indent := isBlank_of_all_isIndent hi
  obtain ⟨p, cut, line, hb, hp, hline, hcut⟩ := exists_indentBlock h.solid indent
  obtain ⟨u, c, hu, hc⟩ := exists_trimEnd_last h.solid
  have hcode := h.uncommented
  have hcomma := h.uncommaed
  rw [hline, commentCut?_blank_append hcut] at hcode
  rw [hu, endsWith_concat] at hcomma
  obtain ⟨v, rfl⟩ : ∃ v, line = v ++ [c] := by
    rw [hu, lastLine_concat hc] at hline
    rcases List.eq_nil_or_concat line with rfl | ⟨v, d, rfl⟩
    · rw [List.append_nil] at hline
      exact absurd (hline ▸ List.mem_append_right _ (List.mem_singleton.2 rfl))
        (notMem_of_isBlank hcut hc)
    · rw [List.concat_eq_append, ← List.append_assoc] at hline
      obtain ⟨-, hd⟩ := List.append_inj' hline rfl
      exact ⟨v, by rw [List.concat_eq_append, hd]⟩
  have hone : '\n' ∉ indent ++ (v ++ [c]) := by
    have hlast := notMem_lastLine (trimEnd x)
    rw [hline] at hlast
    intro hm
    rcases List.mem_append.1 hm with hm | hm
    · exact absurd (List.all_eq_true.1 hi _ hm) (by decide)
    · exact hlast (List.mem_append_right _ hm)
  rw [hb]
  refine ⟨EndsInCode.append hp ⟨?_, indent ++ v, c, (List.append_assoc _ _ _).symm, hc⟩, ?_⟩
  · rw [lastLine_of_oneLine hone, commentCut?_blank_append hblank]
    exact hcode
  · rw [← List.append_assoc, ← List.append_assoc, endsWith_concat]
    exact hcomma

section
variable {xs : List Text} (hx : xs ≠ []) (hxs : ∀ x ∈ xs, Settled x)
include hx hxs

/-- A block of settled entries ends in code without a comma. -/
theorem endsInCode_block :
    EndsInCode (block indent xs) ∧ endsWith ',' (block indent xs) = false := by
  rcases List.eq_nil_or_concat xs with rfl | ⟨us, x, rfl⟩
  · exact absurd rfl hx
  · rw [List.concat_eq_append] at hxs ⊢
    obtain ⟨hcode, hcomma⟩ := (hxs x (by simp)).indentBlock hi
    obtain ⟨q, hq, hsep⟩ := joinWith_concat ",\n\n".toList
      (us.map fun s => indentBlock s indent) (indentBlock x indent)
    have hstart : lastLine q = [] := by
      rcases hsep with rfl | ⟨r, rfl⟩
      · rfl
      · have hcut : ",\n\n".toList = ",\n".toList ++ ['\n'] := rfl
        rw [hcut, ← List.append_assoc, lastLine_concat_newline]
    rw [block, List.map_append, List.map_singleton, hq]
    refine ⟨hcode.append hstart, ?_⟩
    obtain ⟨u, c, hu, -⟩ := hcode.last
    rw [hu, endsWith_concat] at hcomma
    rw [hu, ← List.append_assoc, endsWith_concat, hcomma]

omit hx in
/-- A block of settled entries does not close the array. -/
theorem unclosed_block : contains close (block indent xs) = false := by
  have hfirm : Firm close := firm_of_head? rfl
  have hblank : isBlank indent := isBlank_of_all_isIndent hi
  have hsep : ",\n\n".toList = ',' :: "\n\n".toList := rfl
  refine Bool.eq_false_iff.2 fun h => ?_
  rw [block, hsep] at h
  obtain ⟨t, ht, hc⟩ := exists_of_contains_joinWith hfirm (by decide) isBlank_newlines h
  obtain ⟨x, hx, rfl⟩ := List.mem_map.1 ht
  have hin := contains_of_contains_indentBlock hfirm (by decide) hblank hc
  rw [(hxs x hx).unclosed] at hin
  cases hin

omit hi hxs in
theorem block_append {ys : List Text} (hy : ys ≠ []) :
    block indent (xs ++ ys) = block indent xs ++ ",\n\n".toList ++ block indent ys := by
  rw [block, List.map_append, joinWith_append (by simpa using hx) (by simpa using hy)]
  rfl

end

end

/-! ## The body, found again -/

/-- More entries are added behind those that were, as if they had come with them. -/
theorem exists_resumed {s : AnchorSettings} (hs : Distinct s) (hi : s.listIndent.all isIndent)
    {t : Text} {a : Anchor} {xs : List Text} (hx : xs ≠ []) (hxs : ∀ x ∈ xs, Settled x)
    (h : findAnchor s t = some a) :
    ∃ a', findAnchor s (splice a xs).text = some a' ∧
      ∀ ys, ys ≠ [] → (splice a' ys).text = (splice a (xs ++ ys)).text := by
  obtain ⟨front, head, body, rest, hd, -, rfl⟩ := (findAnchor_iff_declares hs).1 h
  obtain ⟨hcode, hcomma⟩ := endsInCode_block hi hx hxs
  have hopen : contains close (extended body (block s.listIndent xs)) = false :=
    unclosed_extended hd.unclosed (unclosed_block hi hxs)
  refine ⟨_, findAnchor_replace hs h hopen, fun ys hy => ?_⟩
  simp only [splice, block_append hx hy, ← extended_extended hcode hcomma]
  rfl

end Graft.Splice.Entries
