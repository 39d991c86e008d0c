import Graft.Proofs.Splice.Frame
import Graft.Proofs.Splice.Imports
import Graft.Proofs.Splice.Wildcard
import Graft.Splice.Engine

/-!
# What every strategy keeps to

Whatever words the settings give, whatever the text and the snippets are, the four strategies keep
to one contract.

* `exists_splice_replace`: a splice changes the anchor's span only;
* `Imports.ownLines_of_findAnchor`: imports get lines of their own between those of the text;
* `Routes.inFront_of_findAnchor`: routes go in front of a word, or of the line that begins with it;
* `Strategy.applied`: the ways in which a strategy answers;
* `Strategy.contract_ofSettings`: the contract.
-/

namespace Graft.Splice

open Text

/-! ## Lines for imports -/

/-- The imports that are spliced into a text at an anchor have lines of their own, between the lines
of the text.  A last line that no newline ended is given one. -/
structure Imports.OwnLines (t result : Text) (a : Anchor) (snippets : List Text) : Prop where
  point : a.span = []
  place : lastLine a.before = [] ∨ a.rest = []
  whole : lineChunks t = lineChunks a.before ++ lineChunks a.rest
  lines : lineChunks result =
    (lineChunks a.before).map ended ++
      (snippets.flatMap fun x => lineChunks (Imports.terminated x ++ ['\n'])) ++
      lineChunks a.rest

theorem Imports.span_of_findAnchor {s : AnchorSettings} {t : Text} {a : Anchor}
    (h : Imports.findAnchor s t = some a) : a.span = [] := by
  unfold Imports.findAnchor at h
  split at h
  · rw [← Option.some.inj h]
    rfl
  · split at h
    · rw [← Option.some.inj h]
      rfl
    · obtain ⟨rest, -, rfl⟩ := Option.map_eq_some_iff.1 h
      rfl

theorem Imports.lineChunks_lead {a : Anchor} (h : lastLine a.before = [] ∨ a.rest = []) :
    lineChunks (a.before ++ Imports.lead a) = (lineChunks a.before).map ended := by
  rw [Imports.lead_eq]
  by_cases hl : lastLine a.before = []
  · rw [if_neg (fun hc => hc.2 hl), List.append_nil, map_ended_lineChunks hl]
  · rw [if_pos ⟨h.resolve_left hl, hl⟩, lineChunks_concat_newline hl]

theorem Imports.lineChunks_block (snippets : List Text) :
    lineChunks (Imports.block snippets) =
      snippets.flatMap fun x => lineChunks (Imports.terminated x ++ ['\n']) := by
  induction snippets with
  | nil => rfl
  | cons x snippets ih =>
    rw [Imports.block, List.map_cons, List.flatten_cons,
      lineChunks_append (lastLine_concat_newline _), List.flatMap_cons]
    exact congrArg _ ih

/-- Imports get lines of their own between those of the text. -/
theorem Imports.ownLines_of_findAnchor {s : AnchorSettings} {t : Text} {a : Anchor}
    (h : Imports.findAnchor s t = some a) (snippets : List Text) :
    Imports.OwnLines t (Imports.splice a snippets).text a snippets := by
  obtain ⟨ht, hplace⟩ := Imports.findAnchor_spec h
  refine ⟨Imports.span_of_findAnchor h, hplace, ?_, ?_⟩
  · rcases hplace with hl | hr
    · rw [ht, lineChunks_append hl]
    · rw [ht, hr, List.append_nil, lineChunks, List.append_nil]
  · have hlead := Imports.lastLine_lead hplace
    have hblock := Imports.lastLine_append_of_lastLine hlead (Imports.lastLine_block snippets)
    rw [Imports.splice_text, Imports.inserted, ← List.append_assoc, lineChunks_append hblock,
      lineChunks_append hlead, Imports.lineChunks_lead hplace, Imports.lineChunks_block]

/-! ## The place for routes -/

/-- The anchor is right in front of the word that it is found by, or at the start of a line that
begins with this word under an indentation. -/
structure Routes.InFront (s : AnchorSettings) (t : Text) (a : Anchor) : Prop where
  point : a.span = []
  place : ∃ front word back gap, Routes.FoundBy s t a.kind front word back ∧
    front = a.before ++ gap ∧ a.rest = gap ++ (word ++ back) ∧ gap.all isIndent ∧
    (lastLine a.before = [] ∨ gap = [])

theorem Routes.inFront_of_findAnchor {s : AnchorSettings} {t : Text} {a : Anchor}
    (h : Routes.findAnchor s t = some a) : Routes.InFront s t a := by
  obtain ⟨kind, front, word, back, hf, rfl⟩ := Routes.findAnchor_eq_some_iff.1 h
  by_cases hlead : (lastLine front).all isIndent
  · rw [Routes.anchorAt_of_indented hlead]
    exact ⟨rfl, front, word, back, lastLine front, hf, (beforeLastLine_append_lastLine front).symm,
      rfl, hlead, .inl (lastLine_beforeLastLine front)⟩
  · rw [Routes.anchorAt_of_not_indented hlead]
    exact ⟨rfl, front, word, back, [], hf, (List.append_nil front).symm, rfl, rfl, .inr rfl⟩

/-! ## Every strategy -/

namespace Strategy

/-- The ways in which a strategy answers. -/
inductive Applied (st : Strategy) (t : Text) (snippets : List Text) : Insertion → Prop
  | empty (bare : snippets = []) : Applied st t snippets ⟨st.name, t, .empty⟩
  | missing (given : snippets ≠ []) (lost : st.findAnchor t = none) :
      Applied st t snippets ⟨st.name, t, .anchorMissing⟩
  | nothingNew {a : Anchor} (given : snippets ≠ []) (found : st.findAnchor t = some a)
      (uncounted : (st.splice a snippets).inserted = 0) :
      Applied st t snippets ⟨st.name, (st.splice a snippets).text, .nothingNew a.kind⟩
  | spliced {a : Anchor} (given : snippets ≠ []) (found : st.findAnchor t = some a)
      (counted : (st.splice a snippets).inserted ≠ 0) :
      Applied st t snippets ⟨st.name, (st.splice a snippets).text,
        .spliced a.kind (st.splice a snippets).inserted⟩

theorem applied (st : Strategy) (t : Text) (snippets : List Text) :
    Applied st t snippets (st.apply t snippets) := by
  by_cases hne : snippets = []
  · rw [hne, apply_nil]
    exact .empty rfl
  · cases ha : st.findAnchor t with
    | none =>
      rw [apply_of_findAnchor_eq_none hne ha]
      exact .missing hne ha
    | some a =>
      rw [apply_of_findAnchor_eq_some hne ha]
      split
      · rename_i hz
        exact .nothingNew hne ha hz
      · rename_i hz
        exact .spliced hne ha hz

section
variable {s : AnchorSettings} {k : SnippetKind} {st : Strategy} (h : ofSettings s k = .ok st)
  {t : Text} {a : Anchor}
include h

/-- An anchor cuts the text. -/
theorem text_of_findAnchor (ha : st.findAnchor t = some a) : a.text = t := by
  cases k with
  | importLine =>
    obtain ⟨-, rfl⟩ := Imports.strategy_eq_ok h
    rw [Anchor.text_eq, ← (Imports.findAnchor_spec ha).1]
  | route =>
    obtain ⟨-, rfl⟩ := Routes.strategy_eq_ok h
    rw [Anchor.text_eq, ← (Routes.findAnchor_spec ha).1]
  | icon =>
    obtain ⟨-, rfl⟩ := Icons.strategy_eq_ok h
    exact Icons.text_of_findAnchor ha
  | listEntry =>
    obtain ⟨-, -, rfl⟩ := Entries.strategy_eq_ok h
    exact Entries.text_of_findAnchor ha

/-- A splice changes the anchor's span only. -/
theorem exists_splice_replace (a : Anchor) (snippets : List Text) :
    ∃ body, (st.splice a snippets).text = a.replace body := by
  have hinsert : ∀ block, a.insert block = a.replace (block ++ a.span) := fun block => by
    simp only [Anchor.insert, Anchor.replace, Anchor.rest, List.append_assoc]
  cases k with
  | importLine =>
    obtain ⟨-, rfl⟩ := Imports.strategy_eq_ok h
    exact ⟨_, hinsert (Imports.inserted a snippets)⟩
  | route =>
    obtain ⟨-, rfl⟩ := Routes.strategy_eq_ok h
    exact ⟨_, (Routes.splice_text a snippets).trans (hinsert (Routes.inserted a snippets))⟩
  | icon =>
    obtain ⟨-, rfl⟩ := Icons.strategy_eq_ok h
    simp only [Icons.splice]
    split
    · exact ⟨a.span, rfl⟩
    · exact ⟨_, rfl⟩
  | listEntry =>
    obtain ⟨-, -, rfl⟩ := Entries.strategy_eq_ok h
    exact ⟨_, rfl⟩

/-- Imports, routes and entries are all spliced. -/
theorem splice_counted (hk : k ≠ .icon) (a : Anchor) (snippets : List Text) :
    (st.splice a snippets).inserted = snippets.length := by
  cases k with
  | importLine =>
    obtain ⟨-, rfl⟩ := Imports.strategy_eq_ok h
    rfl
  | route =>
    obtain ⟨-, rfl⟩ := Routes.strategy_eq_ok h
    simp only [Routes.splice]
    split <;> rfl
  | icon => exact absurd rfl hk
  | listEntry =>
    obtain ⟨-, -, rfl⟩ := Entries.strategy_eq_ok h
    rfl

/-- Where no snippet is inserted, nothing is changed. -/
theorem splice_text_of_uncounted {snippets : List Text} (hne : snippets ≠ [])
    (hz : (st.splice a snippets).inserted = 0) : (st.splice a snippets).text = a.text := by
  by_cases hk : k = .icon
  · subst hk
    obtain ⟨-, rfl⟩ := Icons.strategy_eq_ok h
    simp only [Icons.splice] at hz ⊢
    split at hz
    · rename_i hnone
      rw [if_pos hnone]
    · rename_i hsome
      exact absurd (List.isEmpty_iff.2 (List.length_eq_zero_iff.1 hz)) hsome
  · rw [splice_counted h hk] at hz
    exact absurd (List.length_eq_zero_iff.1 hz) hne

end

/-- What a strategy of a kind keeps to when it answers with some result. -/
structure Contract (s : AnchorSettings) (k : SnippetKind) (st : Strategy) (t : Text)
    (snippets : List Text) (r : Insertion) : Prop where
  empty_iff : r.outcome = .empty ↔ snippets = []
  missing_iff : r.outcome = .anchorMissing ↔ snippets ≠ [] ∧ st.findAnchor t = none
  unchanged : (∀ kind n, r.outcome ≠ .spliced kind n) → r.text = t
  /-- The anchor's span lies in the text. -/
  located : ∀ a, st.findAnchor t = some a → a.text = t
  /-- What stands on either side of the span is kept. -/
  framed : ∀ a, st.findAnchor t = some a → ∃ body, r.text = a.before ++ body ++ a.after
  nothingNew : ∀ kind, r.outcome = .nothingNew kind → k = .icon
  counted : k ≠ .icon → snippets ≠ [] → ∀ a, st.findAnchor t = some a →
    r.outcome = .spliced a.kind snippets.length
  imports : k = .importLine → snippets ≠ [] → ∀ a, st.findAnchor t = some a →
    Imports.OwnLines t r.text a snippets
  routes : k = .route → ∀ a, st.findAnchor t = some a → Routes.InFront s t a

section
variable {s : AnchorSettings} {k : SnippetKind} {st : Strategy} (h : ofSettings s k = .ok st)
  {t : Text} {snippets : List Text} {r : Insertion} (happ : Applied st t snippets r)
include h happ

theorem Applied.unchanged (hn : ∀ kind n, r.outcome ≠ .spliced kind n) : r.text = t := by
  cases happ with
  | empty | missing => rfl
  | nothingNew given found uncounted =>
    exact (splice_text_of_uncounted h given uncounted).trans (text_of_findAnchor h found)
  | spliced => exact absurd rfl (hn _ _)

theorem Applied.framed {a : Anchor} (ha : st.findAnchor t = some a) :
    ∃ body, r.text = a.before ++ body ++ a.after := by
  cases happ with
  | empty => exact ⟨a.span, (text_of_findAnchor h ha).symm⟩
  | missing _ lost =>
    rw [lost] at ha
    cases ha
  | nothingNew _ found | spliced _ found =>
    obtain rfl := Option.some.inj (found.symm.trans ha)
    exact exists_splice_replace h _ snippets

theorem Applied.nothingNew_icon {kind : AnchorKind} (hout : r.outcome = .nothingNew kind) :
    k = .icon := by
  cases happ with
  | empty | missing | spliced => cases hout
  | nothingNew given _ uncounted =>
    refine Decidable.byContradiction fun hk => given ?_
    rwa [splice_counted h hk, List.length_eq_zero_iff] at uncounted

theorem Applied.counted (hk : k ≠ .icon) (hne : snippets ≠ []) {a : Anchor}
    (ha : st.findAnchor t = some a) : r.outcome = .spliced a.kind snippets.length := by
  cases happ with
  | empty bare => exact absurd bare hne
  | missing _ lost =>
    rw [lost] at ha
    cases ha
  | nothingNew _ _ uncounted =>
    rw [splice_counted h hk, List.length_eq_zero_iff] at uncounted
    exact absurd uncounted hne
  | spliced _ found =>
    obtain rfl := Option.some.inj (found.symm.trans ha)
    rw [splice_counted h hk]

theorem Applied.ownLines (hk : k = .importLine) (hne : snippets ≠ []) {a : Anchor}
    (ha : st.findAnchor t = some a) : Imports.OwnLines t r.text a snippets := by
  subst hk
  obtain ⟨-, rfl⟩ := Imports.strategy_eq_ok h
  cases happ with
  | empty bare => exact absurd bare hne
  | missing _ lost =>
    rw [lost] at ha
    cases ha
  | nothingNew _ found | spliced _ found =>
    obtain rfl := Option.some.inj (found.symm.trans ha)
    exact Imports.ownLines_of_findAnchor ha snippets

end

/-- Every strategy that some settings give keeps to the contract, on every text and with all
snippets. -/
theorem contract_ofSettings {s : AnchorSettings} {k : SnippetKind} {st : Strategy}
    (h : ofSettings s k = .ok st) (t : Text) (snippets : List Text) :
    Contract s k st t snippets (st.apply t snippets) := by
  have happ := applied st t snippets
  generalize st.apply t snippets = r at happ ⊢
  refine
    { empty_iff := ?_
      missing_iff := ?_
      unchanged := happ.unchanged h
      located := fun _ => text_of_findAnchor h
      framed := fun _ => happ.framed h
      nothingNew := fun _ => happ.nothingNew_icon h
      counted := fun hk hne _ => happ.counted h hk hne
      imports := fun hk hne _ => happ.ownLines h hk hne
      routes := ?_ }
  · cases happ <;> simp [*]
  · cases happ <;> simp [*]
  · intro hk a ha
    subst hk
    obtain ⟨-, rfl⟩ := Routes.strategy_eq_ok h
    exact Routes.inFront_of_findAnchor ha

/-- A marker comment of two lines, behind which the text ends on a line that no newline ends. -/
theorem contract_ofSettings_unended :
    let s : AnchorSettings := { importsMarker := "/* (imports\r\n*/".toList }
    let t := "const a = 1;\r\n/* (imports\r\n*/ f();\r".toList
    let snippets := [" import A from \"@modules/a\"\n".toList, "import B from \"@b\";".toList]
    ∃ st, ofSettings s .importLine = .ok st ∧
      Contract s .importLine st t snippets (st.apply t snippets) ∧
      lineChunks (st.apply t snippets).text =
        ["const a = 1;\r\n".toList, "/* (imports\r\n".toList, "*/ f();\r\n".toList,
          "import A from \"@modules/a\";\n".toList, "import B from \"@b\";\n".toList] :=
  ⟨_, rfl, contract_ofSettings rfl _ _, by decide +kernel⟩

end Strategy

end Graft.Splice
