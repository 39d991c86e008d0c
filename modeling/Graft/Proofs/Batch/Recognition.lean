import Graft.Proofs.Batch.Duplicate
import Graft.Proofs.Batch.Patching
import Graft.Proofs.Batch.Setup
import Graft.Proofs.Splice.Keys
import Graft.Proofs.Text.Block

/-!
# Entries that are recognised again

An entry that has been spliced into a listing must not be spliced into it once more.  The rule about
listings looks for the entry's path in two spellings, while the path is read in many more.

* `find?_alone`: with nothing in the router and nothing staged, the listing alone decides;
* `listedIn_spliced`: what the re-indented entry shows, every listing with the entry shows;
* `recognised_iff`: an entry is refused wherever it has been spliced exactly when, re-indented, it
  shows its path as the rule spells it;
* `unspaced_path_missed`: so an entry that spells its path otherwise is spliced twice.
-/

namespace Graft.DuplicateRule

open Splice Text Metadata

/-- The rule about listings refuses the record wherever its entry has been spliced. -/
def Recognised (s : Strategy) (r : Record) (entry : Text) : Prop :=
  ∀ listing, (s.findAnchor listing).isSome →
    find? ⟨[], (s.apply listing [entry]).text⟩ [] r = some .inListing

/-- Without a router and without staged routes, a record is a duplicate by the listing or not at
all. -/
theorem find?_alone {listing : Text} {r : Record} :
    find? ⟨[], listing⟩ [] r = some .inListing ↔ ListedIn r listing := by
  have hrouter : matches? ⟨[], listing⟩ [] r .inRouter = false := by
    rw [← Bool.not_eq_true, matches?_inRouter_iff]
    intro hshown
    obtain ⟨p, -, hp⟩ := hshown.path
    rw [routeAttribute_eq] at hp
    exact absurd (List.infix_nil.1 (contains_iff_isInfix.1 hp)) (by simp)
  rw [find?, all, List.find?_cons_of_neg (by simp [hrouter])]
  constructor
  · intro h
    cases hlisting : matches? ⟨[], listing⟩ [] r .inListing with
    | true => exact matches?_inListing_iff.1 hlisting
    | false =>
      rw [List.find?_cons_of_neg (by simp [hlisting])] at h
      cases List.mem_singleton.1 (List.mem_of_find?_eq_some h)
  · intro h
    exact List.find?_cons_of_pos (matches?_inListing_iff.2 h)

theorem ListedIn.mono {r : Record} {t t' : Text} (h : ListedIn r t) (ht : contains t t') :
    ListedIn r t' := by
  obtain ⟨p, hp, key, hkey, hc⟩ := h
  exact ⟨p, hp, key, hkey, contains_trans hc ht⟩

/-! ## One entry in a listing -/

theorem contains_extended (body added : Text) : contains added (Entries.extended body added) := by
  have hin : ∀ front back : Text, contains added (front ++ added ++ back) := fun front back =>
    contains_iff.2 ⟨front, back, rfl⟩
  unfold Entries.extended
  dsimp only
  split
  · exact hin ['\n'] ['\n']
  · split
    · exact hin _ ['\n']
    · split
      · exact hin _ ",\n".toList
      · exact hin _ ['\n']

/-- What the re-indented entry shows, every listing with the entry shows. -/
theorem listedIn_spliced {r : Record} {entry listing : Text} {a : Anchor}
    (ha : Entries.findAnchor {} listing = some a)
    (h : ListedIn r (indentBlock entry ({} : AnchorSettings).listIndent)) :
    ListedIn r (Entries.standard.apply listing [entry]).text := by
  have hindent : a.indent = ({} : AnchorSettings).listIndent := by
    obtain ⟨-, -, rfl⟩ := Option.map_eq_some_iff.1 ha
    rfl
  have htext : (Entries.standard.apply listing [entry]).text =
      a.before ++ Entries.extended a.span (indentBlock entry a.indent) ++ a.after := by
    rw [Strategy.apply_text (by simp) ha]
    rfl
  rw [htext, hindent]
  have hadded := contains_extended a.span (indentBlock entry ({} : AnchorSettings).listIndent)
  exact h.mono (contains_append_left (contains_append_right a.before hadded) a.after)

/-- A listing with the declaration of an array without entries, and nothing else. -/
def emptyListing : Text := "const modules: Module[] = [];".toList

theorem findAnchor_emptyListing : Entries.findAnchor {} emptyListing =
    some ⟨.listDeclaration, "const modules: Module[] = [".toList, [], Entries.close,
      ({} : AnchorSettings).listIndent⟩ := by
  decide +kernel

/-- In a listing that shows nothing else, only the re-indented entry can show a path. -/
theorem listedIn_of_emptyListing {r : Record} {entry : Text}
    (h : ListedIn r (Entries.standard.apply emptyListing [entry]).text) :
    ListedIn r (indentBlock entry ({} : AnchorSettings).listIndent) := by
  have htext : (Entries.standard.apply emptyListing [entry]).text =
      "const modules: Module[] = [\n".toList ++
        (indentBlock entry ({} : AnchorSettings).listIndent ++ "\n];".toList) := by
    rw [Strategy.apply_text (by simp) findAnchor_emptyListing]
    generalize hadded : indentBlock entry ({} : AnchorSettings).listIndent = added
    change "const modules: Module[] = [".toList ++
      Entries.extended [] (indentBlock entry ({} : AnchorSettings).listIndent) ++ Entries.close = _
    rw [hadded]
    simp [Entries.extended, Entries.close, trimEnd, isBlank]
  obtain ⟨p, hp, key, hkey, hc⟩ := h
  refine ⟨p, hp, key, hkey, ?_⟩
  -- a key begins with a letter and ends with a quote that the rest of the listing lacks
  obtain ⟨q, hq, rfl⟩ := isKey_of_mem_entryKeys hkey
  have hfront : 'p' ∉ "const modules: Module[] = [\n".toList := by decide +kernel
  have hback : q ∉ "\n];".toList := by
    rcases hq with rfl | rfl
    · decide +kernel
    · decide +kernel
  rw [htext, contains_iff_isInfix] at hc
  have hbehind := infix_of_notMem_append (u := "ath: ".toList ++ [q] ++ (p ++ [q])) hfront hc
  rw [contains_iff_isInfix]
  rw [← List.append_assoc] at hbehind ⊢
  exact infix_of_append_notMem hback hbehind

/-- Re-indenting neither hides nor brings in a path on one line. -/
theorem listedIn_indentBlock_iff {r : Record} (hline : ∀ p, r.entryPath = some p → '\n' ∉ p)
    {indent : Text} (hi : isBlank indent) (entry : Text) :
    ListedIn r (indentBlock entry indent) ↔ ListedIn r entry := by
  refine exists_congr fun p => and_congr_right fun hp => exists_congr fun key =>
    and_congr_right fun hkey => ?_
  have hsolid := (isKey_of_mem_entryKeys hkey).solid (hline p hp)
  constructor
  · intro h
    exact contains_of_contains_indentBlock hsolid.first hsolid.oneLine hi h
  · intro h
    exact hsolid.contains_indentBlock h indent

/-! ## Entries that are refused the second time -/

/-- **An entry is recognised wherever it has been spliced exactly when it shows its path as the rule
about listings spells it**: re-indented, behind `path:`, one blank and a quote, up to the same quote.
For a path on one line that is when the snippet itself shows it so. -/
theorem recognised_iff {s : Strategy} (hs : Entries.strategy {} = .ok s) {snippets : Snippets}
    {entry path : Text} (he : snippets.homeCard = some entry) (hp : entryPath? entry = some path)
    (index : Nat) :
    let r := Record.ofSnippets index snippets
    (Recognised s r entry ↔
        ListedIn r (indentBlock entry ({} : AnchorSettings).listIndent)) ∧
      ('\n' ∉ path → (Recognised s r entry ↔ ListedIn r entry)) := by
  intro r
  have hpath : r.entryPath = some path := by
    change snippets.homeCard.bind entryPath? = some path
    rw [he, Option.bind_some, hp]
  obtain ⟨-, -, rfl⟩ := Entries.strategy_eq_ok hs
  have hblock : Recognised Entries.standard r entry ↔
      ListedIn r (indentBlock entry ({} : AnchorSettings).listIndent) := by
    constructor
    · intro h
      exact listedIn_of_emptyListing (find?_alone.1 (h emptyListing (by
        rw [show Entries.standard.findAnchor emptyListing = _ from findAnchor_emptyListing]
        rfl)))
    · intro h listing hlisting
      obtain ⟨a, ha⟩ := Option.isSome_iff_exists.1 hlisting
      exact find?_alone.2 (listedIn_spliced ha h)
  refine ⟨hblock, fun hline => hblock.trans (listedIn_indentBlock_iff ?_ (by decide) entry)⟩
  intro p hpr
  obtain rfl := Option.some.inj (hpath.symm.trans hpr)
  exact hline

theorem recognised_iff_quoted :
    let entry := "\x7b\n  title: 'A',\n  path: '/a'\n\x7d".toList
    let r := Record.ofSnippets 1 { homeCard := some entry }
    Entries.strategy {} = .ok Entries.standard ∧ entryPath? entry = some "/a".toList ∧
      Recognised Entries.standard r entry := by
  intro entry r
  have hpath : entryPath? entry = some "/a".toList := by decide +kernel
  have hs := Entries.strategy_default
  have he : Snippets.homeCard { homeCard := some entry } = some entry := rfl
  have hboth := recognised_iff hs he hpath 1
  refine ⟨hs, hpath, (hboth.2 (by decide +kernel)).2 ⟨"/a".toList, hpath, ?_⟩⟩
  exact ⟨"path: '/a'".toList, by decide +kernel, by decide +kernel⟩

/-- An entry whose path stands right behind the colon is not refused in the listing that it has just
been spliced into. -/
theorem unspaced_path_missed :
    let entry := "\x7b path:'/b' \x7d".toList
    let r := Record.ofSnippets 1 { homeCard := some entry }
    Entries.strategy {} = .ok Entries.standard ∧ r.entryPath = some "/b".toList ∧
      (Entries.standard.findAnchor emptyListing).isSome ∧
      (Entries.standard.apply emptyListing [entry]).text =
        "const modules: Module[] = [\n  \x7b path:'/b' \x7d\n];".toList ∧
      find? ⟨[], (Entries.standard.apply emptyListing [entry]).text⟩ [] r = none := by
  refine ⟨Entries.strategy_default, ?_⟩
  decide +kernel

end Graft.DuplicateRule
