import Graft.Proofs.Text.Suffix
import Graft.Proofs.Text.Solid
import Graft.Splice.Imports

/-!
# Where imports go

* `findAnchor_spec`: imports go to the start of a line or to the end of the text;
* `findAnchor_isSome_of_marker`: a text with the marker comment has a place for imports;
* `inserted_spec`: what is inserted there begins and ends at the start of a line;
* `contains_block_iff`: a word on one line that the inserted lines show is shown by an import.
-/

namespace Graft.Splice.Imports

open Text

/-- The end of a module's import ends a line. -/
theorem followsLine_moduleImport? {source t rest : Text} (h : moduleImport? source t = some rest) :
    FollowsLine rest t := by
  simp only [moduleImport?, Option.bind_eq_bind, Option.bind_eq_some_iff, Prod.exists] at h
  obtain ⟨t₁, h₁, t₂, h₂, _, t₃, h₃, t₄, h₄, t₅, h₅, t₆, h₆, t₇, h₇, t₈, h₈, h₉⟩ := h
  have s₁ : t₁ <:+ t := (skip?_suffix h₁).trans (List.dropWhile_suffix _)
  have s₂ : t₂ <:+ t := (skipSpaces?_suffix h₂).trans s₁
  have s₃ : t₃ <:+ t := (ident?_suffix h₃).trans s₂
  have s₄ : t₄ <:+ t := (skipApart?_suffix h₄).trans s₃
  have s₅ : t₅ <:+ t := (skipSpaces?_suffix h₅).trans s₄
  have s₆ : t₆ <:+ t := (skipQuote?_suffix h₆).trans s₅
  have s₇ : t₇ <:+ t := (skip?_suffix h₇).trans s₆
  have s₈ : t₈ <:+ t := (skipQuote?_suffix h₈).trans ((fromQuote_suffix t₇).trans s₇)
  refine (followsLine_skipLineEnd? h₉).of_suffix ((List.dropWhile_suffix _).trans ?_)
  exact (skipSemicolon_suffix t₈).trans s₈

theorem followsLine_afterLastImport? {source : Text} {fresh : Bool} {busy : Nat} {t rest : Text}
    (h : afterLastImport? source fresh busy t = some rest) : FollowsLine rest t := by
  induction t generalizing fresh busy with
  | nil => cases busy <;> cases h
  | cons c t ih =>
    cases busy with
    | succ busy => exact (ih h).of_suffix (List.suffix_cons c t)
    | zero =>
      simp only [afterLastImport?] at h
      split at h
      · rename_i r hr
        rcases Option.or_eq_some_iff.1 h with h | ⟨_, h⟩
        · exact (ih h).of_suffix (List.suffix_cons c t)
        · obtain rfl := Option.some.inj h
          split at hr
          · exact followsLine_moduleImport? hr
          · cases hr
      · exact (ih h).of_suffix (List.suffix_cons c t)

theorem followsLine_afterMarker? {marker t rest : Text} (h : afterMarker? marker t = some rest) :
    FollowsLine rest t := by
  unfold afterMarker? at h
  split at h
  · cases h
  · obtain ⟨⟨front, back⟩, hc, rfl⟩ := Option.map_eq_some_iff.1 h
    rw [cut?_eq_append hc]
    exact (followsLine_splitLine back).of_suffix (List.suffix_append _ _)

theorem libraryImport?_suffix {library t rest : Text} (h : libraryImport? library t = some rest) :
    rest <:+ t := by
  simp only [libraryImport?, Option.bind_eq_bind, Option.bind_eq_some_iff, Option.some.injEq] at h
  obtain ⟨t₁, h₁, t₂, h₂, t₃, h₃, t₄, h₄, t₅, h₅, rfl⟩ := h
  have s₁ : t₁ <:+ t := skip?_suffix h₁
  have s₂ : t₂ <:+ t := (skipSpaced?_suffix h₂).trans s₁
  have s₃ : t₃ <:+ t := (skipQuote?_suffix h₃).trans ((trimStart_suffix t₂).trans s₂)
  have s₄ : t₄ <:+ t := (skip?_suffix h₄).trans s₃
  exact (skipSemicolon_suffix t₅).trans ((skipQuote?_suffix h₅).trans s₄)

theorem followsLine_afterLibraryImport? {library t rest : Text}
    (h : afterLibraryImport? library t = some rest) : FollowsLine rest t := by
  obtain ⟨⟨skipped, back⟩, hl, rfl⟩ := Option.map_eq_some_iff.1 h
  obtain ⟨r, rfl, hm, _⟩ := leftmost_eq_some_iff.1 hl
  refine (followsLine_splitLine back).of_suffix ?_
  exact (libraryImport?_suffix hm).trans (List.suffix_append skipped r)

/-- Imports go to the start of a line or to the end of the text. -/
theorem findAnchor_spec {s : AnchorSettings} {t : Text} {a : Anchor} (h : findAnchor s t = some a) :
    t = a.before ++ a.rest ∧ (lastLine a.before = [] ∨ a.rest = []) := by
  have hline : ∀ kind rest, FollowsLine rest t → anchorBefore kind t rest = a →
      t = a.before ++ a.rest ∧ (lastLine a.before = [] ∨ a.rest = []) := by
    rintro kind rest hf rfl
    obtain ⟨front, rfl, hl⟩ := hf.eq_append
    simpa [anchorBefore, Anchor.point, Anchor.rest, upTo_of_append] using hl
  unfold findAnchor at h
  split at h
  · rename_i rest hr
    exact hline _ rest (followsLine_afterLastImport? hr) (Option.some.inj h)
  · split at h
    · rename_i rest hr
      exact hline _ rest (followsLine_afterMarker? hr) (Option.some.inj h)
    · obtain ⟨rest, hr, ha⟩ := Option.map_eq_some_iff.1 h
      exact hline _ rest (followsLine_afterLibraryImport? hr) ha

theorem findAnchor_isSome_of_marker {s : AnchorSettings} {t : Text} (hm : s.importsMarker ≠ [])
    (h : contains s.importsMarker t) : ∃ a, findAnchor s t = some a := by
  obtain ⟨p, hp⟩ := Option.isSome_iff_exists.1 h
  have ha : afterMarker? s.importsMarker t = some (splitLine p.2).2 := by
    rw [afterMarker?, if_neg (by simpa using hm), hp, Option.map_some]
  unfold findAnchor
  split
  · exact ⟨_, rfl⟩
  · rw [ha]; exact ⟨_, rfl⟩

/-! ## What is inserted -/

/-- What is inserted at an anchor: the imports, after the newline that an unfinished last line
lacks. -/
def inserted (a : Anchor) (snippets : List Text) : Text := lead a ++ block snippets

theorem lastLine_append_of_lastLine {a b : Text} (ha : lastLine a = []) (hb : lastLine b = []) :
    lastLine (a ++ b) = [] := by
  rcases lastLine_eq_nil_iff.1 hb with rfl | ⟨b, rfl⟩
  · simpa using ha
  · rw [← List.append_assoc]
    exact lastLine_concat_newline _

theorem lastLine_block (snippets : List Text) : lastLine (block snippets) = [] := by
  induction snippets with
  | nil => rfl
  | cons s snippets ih =>
    rw [block, List.map_cons, List.flatten_cons]
    exact lastLine_append_of_lastLine (lastLine_concat_newline _) ih

theorem endsWith_newline_iff {t : Text} (ht : t ≠ []) : endsWith '\n' t ↔ lastLine t = [] := by
  rw [lastLine_eq_nil_iff, endsWith, beq_iff_eq, List.getLast?_eq_some_iff]
  exact ⟨.inr, fun h => h.resolve_left ht⟩

/-- A newline comes first when the imports go behind a last line that lacks one. -/
theorem lead_eq (a : Anchor) :
    lead a = if a.rest = [] ∧ lastLine a.before ≠ [] then ['\n'] else [] := by
  by_cases hb : a.before = []
  · have hl : lastLine [] = [] := rfl
    simp [lead, hb, hl]
  · have he := endsWith_newline_iff hb
    simp [lead, hb, ← he]

theorem lastLine_lead {a : Anchor} (h : lastLine a.before = [] ∨ a.rest = []) :
    lastLine (a.before ++ lead a) = [] := by
  rw [lead_eq]
  split
  · exact lastLine_concat_newline _
  · rename_i hc
    rw [List.append_nil]
    by_cases hl : lastLine a.before = []
    · exact hl
    · exact absurd ⟨h.resolve_left hl, hl⟩ hc

/-- A line begins behind what is inserted, and in front of it unless it begins with a newline. -/
theorem inserted_spec {a : Anchor} (h : lastLine a.before = [] ∨ a.rest = [])
    (snippets : List Text) :
    lastLine (a.before ++ inserted a snippets) = [] ∧
      (lastLine a.before = [] ∨ ∃ u, inserted a snippets = '\n' :: u) := by
  refine ⟨?_, ?_⟩
  · rw [inserted, ← List.append_assoc]
    exact lastLine_append_of_lastLine (lastLine_lead h) (lastLine_block snippets)
  · by_cases hl : lastLine a.before = []
    · exact .inl hl
    · refine .inr ⟨block snippets, ?_⟩
      rw [inserted, lead_eq, if_pos ⟨h.resolve_left hl, hl⟩]
      rfl

/-- A word on one line that the inserted lines show is shown by one of the imports. -/
theorem contains_block_iff {w : Text} (hw : '\n' ∉ w) (hne : w ≠ []) (snippets : List Text) :
    contains w (block snippets) ↔ ∃ s ∈ snippets, contains w (terminated s) := by
  induction snippets with
  | nil =>
    cases w with
    | nil => exact absurd rfl hne
    | cons c w => simp [block, contains, cut?, leftmost, skip?]
  | cons s snippets ih =>
    have hb : block (s :: snippets) = terminated s ++ ['\n'] ++ block snippets := by
      simp [block]
    rw [hb, contains_separated_iff hw hne, ih]
    simp

theorem contains_inserted_iff {w : Text} (hw : '\n' ∉ w) (hne : w ≠ []) (a : Anchor)
    (snippets : List Text) :
    contains w (inserted a snippets) ↔ ∃ s ∈ snippets, contains w (terminated s) := by
  rw [← contains_block_iff hw hne, inserted, lead]
  split
  · have h := contains_separated_iff (b := block snippets) hw hne []
    cases w with
    | nil => exact absurd rfl hne
    | cons c w => simpa [contains, cut?, leftmost, skip?] using h
  · simp

/-- A solid word of an import is shown by the inserted lines. -/
theorem contains_inserted {w s : Text} (hw : Solid w) {snippets : List Text} (hs : s ∈ snippets)
    (h : contains w s) (a : Anchor) : contains w (inserted a snippets) := by
  refine (contains_inserted_iff hw.oneLine hw.ne_nil a snippets).2 ⟨s, hs, ?_⟩
  simp only [terminated]
  split
  · exact hw.contains_trim h
  · exact contains_append_left (hw.contains_trim h) _

theorem splice_text (a : Anchor) (snippets : List Text) :
    (splice a snippets).text = a.before ++ inserted a snippets ++ a.rest := rfl

end Graft.Splice.Imports
