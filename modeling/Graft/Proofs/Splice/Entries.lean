import Graft.Proofs.Text.Comment
import Graft.Splice.Entries

/-!
# The typed array

* `declaration?_eq_some_iff`: a declaration is recognised by its own characters alone;
* `findAnchor_eq_some_iff`: the anchor is the body of the first declaration that is closed;
* `codeCut?_spec`: behind the last code there are but blanks, up to a comment;
* `extended_eq`: adding entries keeps the body, but for the blanks at its end and a comma.
-/

namespace Graft.Splice.Entries

open Text

/-! ## What is no code -/

/-- Blanks, up to a comment if there is one. -/
def Dead (t : Text) : Prop :=
  ∃ gap comment, t = gap ++ comment ∧ isBlank gap ∧ (comment = [] ∨ ∃ u, comment = '/' :: '/' :: u)

theorem dead_of_isBlank {t : Text} (h : isBlank t) : Dead t :=
  ⟨t, [], (List.append_nil t).symm, h, .inl rfl⟩

theorem Dead.append {a b : Text} (ha : Dead a) (hb : Dead b) : Dead (a ++ b) := by
  obtain ⟨gap, comment, rfl, hg, rfl | ⟨u, rfl⟩⟩ := ha
  · obtain ⟨gap', comment', rfl, hg', hc⟩ := hb
    refine ⟨gap ++ gap', comment', ?_, isBlank_append hg hg', hc⟩
    simp only [List.append_nil, List.append_assoc]
  · exact ⟨gap, '/' :: '/' :: (u ++ b), by simp, hg, .inr ⟨_, rfl⟩⟩

theorem codePart_spec (line : Text) :
    ∃ comment, line = codePart line ++ comment ∧
      (comment = [] ∨ ∃ u, comment = '/' :: '/' :: u) := by
  unfold codePart
  split
  · rename_i code comment h
    exact ⟨comment, commentCut?_eq_append h, .inr (commentCut?_comment h)⟩
  · exact ⟨[], (List.append_nil line).symm, .inl rfl⟩

theorem codeCutLines?_spec (ls : List Text) :
    match codeCutLines? ls with
    | some (code, rest) => ls.flatten = code ++ rest ∧ Dead rest
    | none => Dead ls.flatten := by
  induction ls with
  | nil => exact dead_of_isBlank rfl
  | cons line ls ih =>
    rw [codeCutLines?, List.flatten_cons]
    cases hl : codeCutLines? ls with
    | some p =>
      rw [hl] at ih
      exact ⟨by rw [ih.1, List.append_assoc], ih.2⟩
    | none =>
      rw [hl] at ih
      obtain ⟨comment, hline, hcomment⟩ := codePart_spec line
      have hcut : line = trimEnd (codePart line) ++ (trailing (codePart line) ++ comment) := by
        rw [← List.append_assoc, trimEnd_append_trailing]
        exact hline
      have hdead : Dead (trailing (codePart line) ++ comment) :=
        ⟨_, comment, rfl, isBlank_trailing _, hcomment⟩
      dsimp only
      by_cases he : (trimEnd (codePart line)).isEmpty
      · rw [if_pos he]
        rw [List.isEmpty_iff.1 he, List.nil_append] at hcut
        rw [hcut]
        exact hdead.append ih
      · rw [if_neg he]
        have hdrop := (congrArg (List.drop (trimEnd (codePart line)).length) hcut).trans
          List.drop_left
        dsimp only
        rw [hdrop, ← List.append_assoc, ← hcut]
        exact ⟨rfl, hdead.append ih⟩

/-- Behind the last code there are but blanks, up to a comment. -/
theorem codeCut?_spec {t code rest : Text} (h : codeCut? t = some (code, rest)) :
    t = code ++ rest ∧ Dead rest := by
  have hs := codeCutLines?_spec (lineChunks t)
  rw [codeCut?] at h
  rw [h, flatten_lineChunks] at hs
  exact hs

/-! ## The declaration -/

/-- How the array's declaration begins, up to the bracket that opens its body. -/
def IsOpening (name type head : Text) : Prop :=
  ∃ g₁ g₂ g₃ g₄ g₅, g₁ ≠ [] ∧ isBlank g₁ ∧ isBlank g₂ ∧ isBlank g₃ ∧ isBlank g₄ ∧ isBlank g₅ ∧
    head = "const".toList ++ (g₁ ++ name ++ (g₂ ++ ":".toList ++ (g₃ ++ type ++ ("[]".toList ++
      (g₄ ++ "=".toList ++ (g₅ ++ "[".toList))))))

/-- The marks that stand around a declaration but in none. -/
def marks : Text := ['\x7b', '\x7d', '"', '\'', ';']

section
variable {name type head : Text}

theorem IsOpening.eq_concat (h : IsOpening name type head) : ∃ p, head = p ++ ['['] := by
  obtain ⟨g₁, g₂, g₃, g₄, g₅, _, _, _, _, _, _, rfl⟩ := h
  have hb : "[".toList = ['['] := rfl
  exact ⟨"const".toList ++ (g₁ ++ name ++ (g₂ ++ ":".toList ++ (g₃ ++ type ++ ("[]".toList ++
    (g₄ ++ "=".toList ++ g₅))))), by simp [hb]⟩

/-- A declaration has none of the marks that its name and its type lack. -/
theorem IsOpening.notMem (h : IsOpening name type head) {c : Char} (hc : c ∈ marks)
    (hn : c ∉ name) (ht : c ∉ type) : c ∉ head := by
  obtain ⟨g₁, g₂, g₃, g₄, g₅, _, h₁, h₂, h₃, h₄, h₅, rfl⟩ := h
  have hall : ∀ c ∈ marks, isSpace c = false ∧ c ∉ "const".toList ∧ c ∉ ":".toList ∧
      c ∉ "[]".toList ∧ c ∉ "=".toList ∧ c ∉ "[".toList :=
    forall_mem_of_all rfl
  obtain ⟨hs, hw₁, hw₂, hw₃, hw₄, hw₅⟩ := hall c hc
  simp only [List.mem_append, not_or]
  exact ⟨hw₁, ⟨notMem_of_isBlank h₁ hs, hn⟩, ⟨notMem_of_isBlank h₂ hs, hw₂⟩,
    ⟨notMem_of_isBlank h₃ hs, ht⟩, hw₃, ⟨notMem_of_isBlank h₄ hs, hw₄⟩,
    notMem_of_isBlank h₅ hs, hw₅⟩

end

section
variable {name type t rest : Text} (hn : Firm name) (ht : Firm type)
include hn ht

/-- A declaration is recognised by its own characters alone. -/
theorem declaration?_eq_some_iff :
    declaration? name type t = some rest ↔ ∃ head, IsOpening name type head ∧ t = head ++ rest := by
  have hcolon : Firm ":".toList := firm_of_head? rfl
  have hequals : Firm "=".toList := firm_of_head? rfl
  have hopen : Firm "[".toList := firm_of_head? rfl
  simp only [declaration?, Option.bind_eq_bind, Option.bind_eq_some_iff, skip?_eq_some_iff,
    skipApart?_eq_some_iff hn, skipSpaced?_eq_some_iff hcolon, skipSpaced?_eq_some_iff ht,
    skipSpaced?_eq_some_iff hequals, skipSpaced?_eq_some_iff hopen]
  constructor
  · rintro ⟨_, rfl, _, ⟨g₁, hne, h₁, rfl⟩, _, ⟨g₂, h₂, rfl⟩, _, ⟨g₃, h₃, rfl⟩, _, rfl, _,
      ⟨g₄, h₄, rfl⟩, g₅, h₅, rfl⟩
    refine ⟨_, ⟨g₁, g₂, g₃, g₄, g₅, hne, h₁, h₂, h₃, h₄, h₅, rfl⟩, ?_⟩
    simp only [List.append_assoc]
  · rintro ⟨_, ⟨g₁, g₂, g₃, g₄, g₅, hne, h₁, h₂, h₃, h₄, h₅, rfl⟩, rfl⟩
    refine ⟨_, List.append_assoc _ _ _, _, ⟨g₁, hne, h₁, List.append_assoc _ _ _⟩, _,
      ⟨g₂, h₂, List.append_assoc _ _ _⟩, _, ⟨g₃, h₃, List.append_assoc _ _ _⟩, _,
      List.append_assoc _ _ _, _, ⟨g₄, h₄, List.append_assoc _ _ _⟩, g₅, h₅, rfl⟩

theorem body?_eq_some_iff {body after : Text} :
    body? name type t = some (body, after) ↔
      ∃ head rest, IsOpening name type head ∧ t = head ++ (body ++ (close ++ rest)) ∧
        cut? close (body ++ (close ++ rest)) = some (body, rest) ∧ after = close ++ rest := by
  simp only [body?, Option.bind_eq_bind, Option.bind_eq_some_iff, declaration?_eq_some_iff hn ht,
    Prod.exists, Option.some.injEq, Prod.mk.injEq]
  constructor
  · rintro ⟨_, ⟨head, hh, rfl⟩, _, rest, hc, rfl, rfl⟩
    have hb := cut?_eq_append hc
    rw [List.append_assoc] at hb
    exact ⟨head, rest, hh, by rw [hb], hb ▸ hc, rfl⟩
  · rintro ⟨head, rest, hh, rfl, hc, rfl⟩
    exact ⟨_, ⟨head, hh, rfl⟩, body, rest, hc, rfl, rfl⟩

theorem isSome_body?_iff :
    (body? name type t).isSome ↔
      ∃ head rest, IsOpening name type head ∧ contains close rest ∧ t = head ++ rest := by
  constructor
  · intro h
    obtain ⟨⟨body, after⟩, hb⟩ := Option.isSome_iff_exists.1 h
    obtain ⟨head, rest, hh, rfl, hc, _⟩ := (body?_eq_some_iff hn ht).1 hb
    exact ⟨head, _, hh, by rw [contains, hc]; rfl, rfl⟩
  · rintro ⟨head, rest, hh, hc, rfl⟩
    obtain ⟨⟨body, after⟩, hcut⟩ := Option.isSome_iff_exists.1 hc
    have hb := cut?_eq_append hcut
    rw [List.append_assoc] at hb
    rw [hb, (body?_eq_some_iff hn ht).2 ⟨head, after, hh, rfl, hb ▸ hcut, rfl⟩]
    rfl

end

theorem declaration?_suffix {name type t rest : Text} (h : declaration? name type t = some rest) :
    rest <:+ t := by
  simp only [declaration?, Option.bind_eq_bind, Option.bind_eq_some_iff] at h
  obtain ⟨_, h₁, _, h₂, _, h₃, _, h₄, _, h₅, _, h₆, h₇⟩ := h
  exact (skipSpaced?_suffix h₇).trans <| (skipSpaced?_suffix h₆).trans <| (skip?_suffix h₅).trans <|
    (skipSpaced?_suffix h₄).trans <| (skipSpaced?_suffix h₃).trans <| (skipApart?_suffix h₂).trans
      (skip?_suffix h₁)

theorem body?_suffix {name type t body after : Text} (h : body? name type t = some (body, after)) :
    body ++ after <:+ t := by
  simp only [body?, Option.bind_eq_bind, Option.bind_eq_some_iff, Prod.exists, Option.some.injEq,
    Prod.mk.injEq] at h
  obtain ⟨rest, hd, _, back, hc, rfl, rfl⟩ := h
  rw [← List.append_assoc, ← cut?_eq_append hc]
  exact declaration?_suffix hd

/-- An anchor for entries cuts the text. -/
theorem text_of_findAnchor {s : AnchorSettings} {t : Text} {a : Anchor}
    (h : findAnchor s t = some a) : a.text = t := by
  obtain ⟨⟨front, body, after⟩, hl, rfl⟩ := Option.map_eq_some_iff.1 h
  obtain ⟨rest, rfl, hb, -⟩ := leftmost_eq_some_iff.1 hl
  rw [Anchor.text, List.append_assoc]
  exact upTo_append ((body?_suffix hb).trans (List.suffix_append front rest))

/-- The anchor is the body of the first declaration that is closed. -/
theorem findAnchor_eq_some_iff {s : AnchorSettings} (hn : Firm s.listName) (ht : Firm s.listType)
    {t : Text} {a : Anchor} :
    findAnchor s t = some a ↔
      ∃ front head body rest,
        IsOpening s.listName s.listType head ∧
        t = front ++ (head ++ (body ++ (close ++ rest))) ∧
        cut? close (body ++ (close ++ rest)) = some (body, rest) ∧
        (∀ p q, front = p ++ q → q ≠ [] →
          body? s.listName s.listType (q ++ (head ++ (body ++ (close ++ rest)))) = none) ∧
        a = ⟨.listDeclaration, front ++ head, body, close ++ rest, s.listIndent⟩ := by
  simp only [findAnchor, Option.map_eq_some_iff, Prod.exists]
  constructor
  · rintro ⟨front, body, after, hl, rfl⟩
    obtain ⟨t', rfl, hm, hfirst⟩ := leftmost_eq_some_iff.1 hl
    obtain ⟨head, rest, hh, rfl, hc, rfl⟩ := (body?_eq_some_iff hn ht).1 hm
    exact ⟨front, head, body, rest, hh, rfl, hc, hfirst, by rw [upTo_append_append]⟩
  · rintro ⟨front, head, body, rest, hh, rfl, hc, hfirst, rfl⟩
    refine ⟨front, body, close ++ rest, leftmost_eq_some_iff.2 ⟨_, rfl, ?_, hfirst⟩, ?_⟩
    · exact (body?_eq_some_iff hn ht).2 ⟨head, rest, hh, rfl, hc, rfl⟩
    · rw [upTo_append_append]

/-! ## Adding entries -/

/-- Adding entries keeps the body up to the blanks at its end, but for a comma that may go behind
its last code. -/
theorem extended_eq (body added : Text) :
    (∃ more, extended body added = trimEnd body ++ more) ∨
      ∃ code rest more, trimEnd body = code ++ rest ∧ Dead rest ∧
        extended body added = code ++ ',' :: rest ++ more := by
  simp only [extended]
  split
  · rename_i hb
    left
    rw [trimEnd_eq_nil_of_isBlank hb]
    exact ⟨_, rfl⟩
  · split
    · left
      exact ⟨['\n'] ++ added ++ ['\n'], by simp only [List.append_assoc]⟩
    · rename_i code rest hc
      obtain ⟨hcode, hdead⟩ := codeCut?_spec hc
      split
      · left
        exact ⟨"\n\n".toList ++ added ++ ",\n".toList, by simp only [List.append_assoc]⟩
      · right
        refine ⟨code, rest, "\n\n".toList ++ added ++ ['\n'], hcode, hdead, ?_⟩
        simp only [List.append_assoc, List.cons_append, List.nil_append]

theorem splice_text (a : Anchor) (snippets : List Text) :
    (splice a snippets).text =
      a.before ++ extended a.span (block a.indent snippets) ++ a.after := rfl

end Graft.Splice.Entries
