import Graft.Proofs.Batch.Setup
import Graft.Proofs.Splice.Entries

/-!
# Commas between entries

Without its comments, the array's body is the code of what it held and of the entries that were
added, with one comma between each two.  It is so as long as the comma that goes behind an entry
neither follows one of the entry's own nor stands in a comment.

* `separated_block`: the entries of a block are separated;
* `separated_extended`: so are the body and the block that is added to it;
* `splice_separated`: and what a splice leaves at the anchor.
-/

namespace Graft.Splice.Entries

open Text

/-! ## Separated texts -/

/-- An entry's code without a comma that ends it. -/
def withoutComma (code : Text) : Text :=
  if endsWith ',' code then trimEnd code.dropLast else code

/-- The code of each entry that has some, without a comma that ends it. -/
def codesOf (entries : List Text) : List Text :=
  entries.filterMap fun e => if codeOf e = [] then none else some (withoutComma (codeOf e))

/-- One comma among blanks. -/
def IsComma (t : Text) : Prop := ∃ g g', isBlank g ∧ isBlank g' ∧ t = g ++ ',' :: g'

/-- A text of words with a comma behind each, which may lack behind the last, and of blanks. -/
inductive Separated : List Text → Text → Prop
  | blank {gap : Text} : isBlank gap → Separated [] gap
  | last {lead w tail : Text} : isBlank lead → isBlank tail → Separated [w] (lead ++ w ++ tail)
  | cons {lead w comma rest : Text} {ws : List Text} :
      isBlank lead → IsComma comma → Separated ws rest →
        Separated (w :: ws) (lead ++ w ++ (comma ++ rest))

namespace Separated

variable {ws : List Text} {t gap : Text}

theorem blank_append (hg : isBlank gap) (h : Separated ws t) : Separated ws (gap ++ t) := by
  cases h with
  | blank ht => exact .blank (isBlank_append hg ht)
  | last hl ht => simpa only [List.append_assoc] using last (isBlank_append hg hl) ht
  | cons hl hc h => simpa only [List.append_assoc] using cons (isBlank_append hg hl) hc h

theorem append_blank (h : Separated ws t) (hg : isBlank gap) : Separated ws (t ++ gap) := by
  induction h with
  | blank ht => exact .blank (isBlank_append ht hg)
  | last hl ht => simpa only [List.append_assoc] using last hl (isBlank_append ht hg)
  | cons hl hc _ ih => simpa only [List.append_assoc] using cons hl hc ih

end Separated

/-- Whether a text is made of words with a comma behind each, by its characters. -/
def isSeparated : List Text → Text → Bool
  | [], t => isBlank t
  | w :: ws, t =>
    match skip? w (trimStart t) with
    | none => false
    | some rest =>
      ws.isEmpty && isBlank rest ||
        match trimStart rest with
        | ',' :: rest => isSeparated ws rest
        | _ => false

theorem isSeparated_blank_append {gap : Text} (hg : isBlank gap) (ws : List Text) (t : Text) :
    isSeparated ws (gap ++ t) = isSeparated ws t := by
  cases ws with
  | nil =>
    rw [isSeparated, isSeparated, Bool.eq_iff_iff, isBlank_append_iff]
    exact and_iff_right hg
  | cons w ws => rw [isSeparated, isSeparated, trimStart_blank_append hg]

/-- Words that begin with no blank are found one after the other. -/
theorem Separated.isSeparated {ws : List Text} {t : Text} (h : Separated ws t)
    (hw : ∀ w ∈ ws, Firm w) : isSeparated ws t := by
  have hskip : ∀ {lead w : Text}, isBlank lead → Firm w → ∀ t,
      skip? w (trimStart (lead ++ w ++ t)) = some t := by
    intro lead w hl hw t
    obtain ⟨c, u, rfl, hc⟩ := hw
    rw [List.append_assoc, trimStart_blank_append hl, skip?_eq_some_iff]
    simp [trimStart, hc]
  induction h with
  | blank hg => exact hg
  | last hl ht =>
    rw [Entries.isSeparated, hskip hl (hw _ List.mem_cons_self)]
    simp [ht]
  | cons hl hc _ ih =>
    obtain ⟨hfirst, hws⟩ := List.forall_mem_cons.1 hw
    obtain ⟨g, g', hg, hg', rfl⟩ := hc
    rw [Entries.isSeparated, hskip hl hfirst]
    have hcomma : ∀ u : Text, trimStart (g ++ ',' :: u) = ',' :: u := by
      intro u
      rw [trimStart_blank_append hg]
      simp [trimStart, isSpace]
    simp [hcomma, isSeparated_blank_append hg', ih hws]

/-! ## The code of an entry -/

/-- Code is what it is without its comma, and that comma if it has one. -/
theorem exists_withoutComma (code : Text) :
    ∃ ending, code = withoutComma code ++ ending ∧
      if endsWith ',' code then IsComma ending else ending = [] := by
  unfold withoutComma
  split
  · rename_i h
    rcases List.eq_nil_or_concat code with rfl | ⟨u, d, rfl⟩
    · cases h
    · rw [List.concat_eq_append, endsWith_concat, beq_iff_eq] at h
      subst h
      rw [List.concat_eq_append, List.dropLast_concat]
      refine ⟨trailing u ++ [','], ?_, trailing u, [], isBlank_trailing u, rfl, rfl⟩
      rw [← List.append_assoc, trimEnd_append_trailing]
  · exact ⟨[], (List.append_nil code).symm, rfl⟩

variable {x : Text}

/-- What an entry says without comments is its code, among blanks and with its comma. -/
theorem exists_entry (x : Text) :
    ∃ lead tail, isBlank lead ∧ uncommented x = lead ++ withoutComma (codeOf x) ++ tail ∧
      if endsWith ',' (codeOf x) then IsComma tail else isBlank tail := by
  obtain ⟨lead, b, hx, hl, hb⟩ := trim_eq (uncommented x)
  rw [← codeOf] at hx
  obtain ⟨ending, hcode, hends⟩ := exists_withoutComma (codeOf x)
  refine ⟨lead, ending ++ b, hl, ?_, ?_⟩
  · conv => lhs; rw [hx, hcode]
    simp only [List.append_assoc]
  · split at hends
    · rename_i hc
      obtain ⟨g, g', hg, hg', rfl⟩ := hends
      rw [if_pos hc]
      exact ⟨g, g' ++ b, hg, isBlank_append hg' hb, by simp⟩
    · rename_i hc
      rw [if_neg hc, hends]
      exact hb

theorem codesOf_cons_of_nil (h : codeOf x = []) (es : List Text) : codesOf (x :: es) = codesOf es :=
  List.filterMap_cons_none (if_pos h)

theorem codesOf_cons_of_ne_nil (h : codeOf x ≠ []) (es : List Text) :
    codesOf (x :: es) = withoutComma (codeOf x) :: codesOf es :=
  List.filterMap_cons_some (if_neg h)

/-! ## Commas behind entries -/

/-- A comma behind the entry follows one of its own. -/
def Doubled (entry : Text) : Prop := endsInComment entry = false ∧ endsWith ',' (codeOf entry)

/-- A comma behind the entry stands in a comment, and the entry has none of its own. -/
def Swallowed (entry : Text) : Prop :=
  endsInComment entry ∧ codeOf entry ≠ [] ∧ endsWith ',' (codeOf entry) = false

instance : DecidablePred Doubled := fun _ => inferInstanceAs (Decidable (_ ∧ _))

instance : DecidablePred Swallowed := fun _ => inferInstanceAs (Decidable (_ ∧ _))

/-- An entry is separated from nothing. -/
theorem separated_entry (x : Text) : Separated (codesOf [x]) (uncommented x) := by
  by_cases hcode : codeOf x = []
  · rw [codesOf_cons_of_nil hcode]
    exact .blank (isBlank_uncommented_of_codeOf hcode)
  · rw [codesOf_cons_of_ne_nil hcode]
    obtain ⟨lead, tail, hl, hx, hends⟩ := exists_entry x
    rw [hx]
    split at hends
    · rw [← List.append_nil tail]
      exact .cons hl hends (.blank rfl)
    · exact .last hl hends

section
variable (hsolid : isBlank (lastLine x) = false) (hd : ¬ Doubled x)
include hsolid hd

/-- An entry and a comma are separated from what follows. -/
theorem separated_comma (hs : ¬ Swallowed x) {es : List Text} {t : Text}
    (h : Separated (codesOf es) t) :
    Separated (codesOf (x :: es)) (uncommented (x ++ [',']) ++ t) := by
  obtain ⟨lead, tail, hl, hx, hends⟩ := exists_entry x
  by_cases hcomment : endsInComment x
  · -- the comma is lost in the comment, and the entry has its own or needs none
    rw [uncommented_append_of_comment hcomment (by decide)]
    by_cases hcode : codeOf x = []
    · rw [codesOf_cons_of_nil hcode]
      exact h.blank_append (isBlank_uncommented_of_codeOf hcode)
    · have hown : endsWith ',' (codeOf x) :=
        Bool.of_not_eq_false fun hn => hs ⟨hcomment, hcode, hn⟩
      rw [if_pos hown] at hends
      rw [codesOf_cons_of_ne_nil hcode, hx, List.append_assoc]
      exact .cons hl hends h
  · have hcomment := Bool.eq_false_iff.2 hcomment
    have hcode : codeOf x ≠ [] := by
      intro hnil
      rw [endsInComment_of_isBlank (isBlank_uncommented_of_codeOf hnil) hsolid] at hcomment
      cases hcomment
    rw [if_neg fun hown => hd ⟨hcomment, hown⟩] at hends
    rw [uncommented_append_of_code hcomment (by decide),
      codesOf_cons_of_ne_nil hcode, hx]
    have hcomma : IsComma (tail ++ [',']) := ⟨tail, [], hends, rfl, rfl⟩
    simpa only [List.append_assoc] using Separated.cons hl hcomma h

/-- A comma may follow the last entry. -/
theorem separated_last : Separated (codesOf [x]) (uncommented (x ++ [','])) := by
  by_cases hcomment : endsInComment x
  · rw [uncommented_append_of_comment hcomment (by decide)]
    exact separated_entry x
  · have hnone : Separated (codesOf []) [] := .blank rfl
    have h := separated_comma hsolid hd (fun hs => hcomment hs.1) hnone
    rwa [List.append_nil] at h

end

/-- The entries of a block are separated, also when a comma follows the block. -/
theorem separated_block {es : List Text} (hne : es ≠ [])
    (hsolid : ∀ x ∈ es, isBlank (lastLine x) = false)
    (hd : ∀ x ∈ es.dropLast, ¬ Doubled x) (hs : ∀ x ∈ es.dropLast, ¬ Swallowed x) :
    Separated (codesOf es) (uncommented (joinWith ",\n\n".toList es)) ∧
      ((∀ x ∈ es.getLast?, ¬ Doubled x) →
        Separated (codesOf es) (uncommented (joinWith ",\n\n".toList es ++ [',']))) := by
  induction es with
  | nil => exact absurd rfl hne
  | cons x es ih =>
    obtain ⟨hx, hes⟩ := List.forall_mem_cons.1 hsolid
    cases es with
    | nil => exact ⟨separated_entry x, fun h => separated_last hx (h x rfl)⟩
    | cons y ys =>
      rw [List.dropLast_cons_cons] at hd hs
      obtain ⟨hdx, hd⟩ := List.forall_mem_cons.1 hd
      obtain ⟨hsx, hs⟩ := List.forall_mem_cons.1 hs
      obtain ⟨hblock, hlast⟩ := ih (List.cons_ne_nil y ys) hes hd hs
      have hcut : ∀ t, uncommented (x ++ ",\n\n".toList ++ t) =
          uncommented (x ++ [',']) ++ ("\n\n".toList ++ uncommented t) := by
        intro t
        have hsep : x ++ ",\n\n".toList = x ++ [','] ++ ['\n'] ++ ['\n'] := by simp
        rw [hsep, uncommented_append (lastLine_concat_newline _), uncommented_concat_newline,
          uncommented_concat_newline]
        simp
      rw [joinWith, List.append_assoc _ _ [','], hcut, hcut, List.getLast?_cons_cons]
      exact ⟨separated_comma hx hdx hsx (hblock.blank_append rfl),
        fun h => separated_comma hx hdx hsx ((hlast h).blank_append rfl)⟩

/-! ## The body -/

/-- The commas that go behind entries neither follow another one nor stand in a comment.  One goes
behind the last entry only where one ended the body. -/
structure Joins (body : Text) (entries : List Text) : Prop where
  single : ∀ x ∈ entries.dropLast, ¬ Doubled x
  shown : ∀ x ∈ entries.dropLast, ¬ Swallowed x
  closing : endsWith ',' (codeOf body) → ∀ x ∈ entries.getLast?, ¬ Doubled x

theorem uncommented_between (a b : Text) :
    uncommented (a ++ ['\n'] ++ b ++ ['\n']) =
      uncommented a ++ (['\n'] ++ uncommented b ++ ['\n']) := by
  rw [uncommented_concat_newline, uncommented_append (lastLine_concat_newline a),
    uncommented_concat_newline]
  simp only [List.append_assoc]

/-- The body and the entries that are added to it are separated. -/
theorem separated_extended {body : Text} {es : List Text} (hne : es ≠ [])
    (hsolid : ∀ x ∈ es, isBlank (lastLine x) = false) (hj : Joins body es) :
    Separated (codesOf (body :: es))
      (uncommented (extended body (joinWith ",\n\n".toList es))) := by
  obtain ⟨hblock, hlast⟩ := separated_block hne hsolid hj.single hj.shown
  have hclosing := hj.closing
  generalize joinWith ",\n\n".toList es = added at *
  have hbody : codesOf (body :: es) = codesOf (trimEnd body :: es) := by
    rw [codesOf, codesOf, List.filterMap_cons, List.filterMap_cons, codeOf_trimEnd]
  rw [← codeOf_trimEnd] at hclosing
  rw [hbody, extended]
  generalize trimEnd body = kept at *
  have hgap : ∀ a b : Text, uncommented (a ++ "\n\n".toList ++ b ++ ['\n']) =
      uncommented a ++ ("\n\n".toList ++ uncommented b ++ ['\n']) := by
    intro a b
    have hcut : a ++ "\n\n".toList = (a ++ ['\n']) ++ ['\n'] := by simp
    rw [hcut, uncommented_between, uncommented_concat_newline]
    simp
  split
  · rename_i hblank
    have hu := isBlank_uncommented hblank
    rw [codesOf_cons_of_nil (codeOf_of_isBlank hu)]
    have h := uncommented_between [] added
    rw [List.nil_append, uncommented_nil, List.nil_append] at h
    exact h ▸ (hblock.blank_append rfl).append_blank rfl
  · split
    · rename_i hnone
      have hu := isBlank_of_codeCut?_eq_none hnone
      rw [codesOf_cons_of_nil (codeOf_of_isBlank hu), uncommented_between]
      exact ((hblock.blank_append rfl).append_blank rfl).blank_append hu
    · rename_i code rest hcut
      obtain ⟨hne, hends, lead, gap, hl, hg, hcomma⟩ := exists_codeOf hcut
      rw [codesOf_cons_of_ne_nil hne]
      split
      · rename_i hc
        rw [← hends] at hc
        have hsep : ",\n".toList = [','] ++ ['\n'] := rfl
        obtain ⟨lead, tail, hl, hx, htail⟩ := exists_entry kept
        rw [if_pos hc] at htail
        have hlast := hlast (hclosing hc)
        rw [hsep, ← List.append_assoc, List.append_assoc _ added, hgap, hx,
          List.append_assoc _ tail]
        exact .cons hl htail ((hlast.blank_append rfl).append_blank rfl)
      · rename_i hc
        rw [← hends] at hc
        have hkept : withoutComma (codeOf kept) = codeOf kept := if_neg hc
        have hcode : code ++ [','] ++ rest = code ++ ',' :: rest := by simp
        rw [hgap, hcode, hcomma, hkept, List.append_assoc]
        exact .cons hl ⟨[], gap, rfl, hg, rfl⟩ ((hblock.blank_append rfl).append_blank rfl)

/-! ## What a splice leaves -/

/-- The entries that snippets are spliced in as, under the indentation of an anchor. -/
def entriesOf (a : Anchor) (snippets : List Text) : List Text :=
  snippets.map fun s => indentBlock s a.indent

/-- A snippet that is not blank is an entry whose last line is not. -/
theorem isBlank_lastLine_indentBlock {snippet : Text} (h : isBlank snippet = false)
    (indent : Text) : isBlank (lastLine (indentBlock snippet indent)) = false := by
  obtain ⟨p, cut, line, hb, -, hline, hcut⟩ := exists_indentBlock h indent
  have hsolid := not_isBlank_lastLine_trimEnd h
  have hn : '\n' ∉ line := fun hm =>
    notMem_lastLine (trimEnd snippet) (hline ▸ List.mem_append_right cut hm)
  rw [hline] at hsolid
  refine Bool.eq_false_iff.2 fun hb' => Bool.eq_false_iff.1 hsolid (isBlank_append hcut ?_)
  rw [hb, ← List.append_assoc, lastLine_append_of_notMem hn] at hb'
  exact (isBlank_append_iff.1 hb').2

/-- **Entries stay separated by one comma.**  Without its comments, the body that a splice leaves is
the code of what it held and of the entries that were added, in this order and with one comma
between each two, as long as no comma goes behind one that ends an entry, and none into an entry's
comment. -/
theorem splice_separated {s : AnchorSettings} {st : Strategy} (hs : strategy s = .ok st) {t : Text}
    {a : Anchor} (ha : st.findAnchor t = some a) {snippets : List Text} (hne : snippets ≠ [])
    (hsolid : ∀ x ∈ snippets, isBlank x = false) (hj : Joins a.span (entriesOf a snippets)) :
    ∃ body, st.apply t snippets =
        ⟨"list", a.replace body, .spliced .listDeclaration snippets.length⟩ ∧
      Separated (codesOf (a.span :: entriesOf a snippets)) (uncommented body) := by
  obtain ⟨-, -, rfl⟩ := strategy_eq_ok hs
  have hkind : a.kind = .listDeclaration := by
    obtain ⟨p, -, rfl⟩ := Option.map_eq_some_iff.1 ha
    rfl
  have hlen : snippets.length ≠ 0 := by simpa using hne
  refine ⟨extended a.span (block a.indent snippets), ?_, separated_extended ?_ ?_ hj⟩
  · rw [Strategy.apply_of_findAnchor_eq_some hne ha]
    simp only [splice, hlen, hkind, if_false]
  · simpa [entriesOf] using hne
  · intro x hx
    obtain ⟨snippet, hsnippet, rfl⟩ := List.mem_map.1 hx
    exact isBlank_lastLine_indentBlock (hsolid snippet hsnippet) a.indent

/-- A comma goes in front of the comment that the body ends with; the first entry has its own in
front of its comment; the second is but a comment. -/
theorem splice_separated_commented :
    let st : Strategy := ⟨.listEntry, "list", findAnchor {}, splice⟩
    let a : Anchor := ⟨.listDeclaration, "const modules: Module[] = [".toList,
      "\n  \x7b url: \"http://a\" \x7d // first\n  // more\n".toList, "];\n".toList, "  ".toList⟩
    let snippets :=
      ["\x7b b: 2, // own\n\x7d, // b".toList, "// to do".toList, "\x7b c: 3 \x7d".toList]
    strategy {} = .ok st ∧ st.findAnchor a.text = some a ∧ snippets ≠ [] ∧
      (∀ x ∈ snippets, isBlank x = false) ∧ Joins a.span (entriesOf a snippets) ∧
      ∃ body, st.apply a.text snippets = ⟨"list", a.replace body, .spliced .listDeclaration 3⟩ ∧
        Separated ["\x7b url: \"http://a\" \x7d".toList, "\x7b b: 2, \n  \x7d".toList,
          "\x7b c: 3 \x7d".toList] (uncommented body) := by
  intro st a snippets
  have hs : strategy {} = .ok st := rfl
  have ha : st.findAnchor a.text = some a := by decide +kernel
  have hne : snippets ≠ [] := List.cons_ne_nil _ _
  have hsolid : ∀ x ∈ snippets, isBlank x = false := by decide +kernel
  have hj : Joins a.span (entriesOf a snippets) :=
    ⟨by decide +kernel, by decide +kernel, by decide +kernel⟩
  obtain ⟨body, happly, hsep⟩ := splice_separated hs ha hne hsolid hj
  have hcodes : codesOf (a.span :: entriesOf a snippets) =
      ["\x7b url: \"http://a\" \x7d".toList, "\x7b b: 2, \n  \x7d".toList,
        "\x7b c: 3 \x7d".toList] := by
    decide +kernel
  exact ⟨hs, ha, hne, hsolid, hj, body, happly, hcodes ▸ hsep⟩

/-- An entry that ends with a comma is given a second one, and one that ends with a comment is not
separated from the next: its comma is part of the comment. -/
theorem splice_unseparated :
    let st : Strategy := ⟨.listEntry, "list", findAnchor {}, splice⟩
    let t := "const modules: Module[] = [];\n".toList
    let codes := ["\x7b a: 1 \x7d".toList, "\x7b b: 2 \x7d".toList]
    let doubled := "\n  \x7b a: 1 \x7d,,\n\n  \x7b b: 2 \x7d\n".toList
    let swallowed := "\n  \x7b a: 1 \x7d // x,\n\n  \x7b b: 2 \x7d\n".toList
    strategy {} = .ok st ∧
      (st.apply t ["\x7b a: 1 \x7d,".toList, "\x7b b: 2 \x7d".toList]).text =
        "const modules: Module[] = [".toList ++ doubled ++ "];\n".toList ∧
      ¬ Separated codes (uncommented doubled) ∧
      (st.apply t ["\x7b a: 1 \x7d // x".toList, "\x7b b: 2 \x7d".toList]).text =
        "const modules: Module[] = [".toList ++ swallowed ++ "];\n".toList ∧
      ¬ Separated codes (uncommented swallowed) := by
  intro st t codes doubled swallowed
  have hfirm : ∀ w ∈ codes, Firm w :=
    List.forall_mem_cons.2 ⟨firm_of_head? rfl, List.forall_mem_singleton.2 (firm_of_head? rfl)⟩
  refine ⟨rfl, by decide +kernel, fun h => ?_, by decide +kernel, fun h => ?_⟩
  · exact absurd (h.isSeparated hfirm) (by decide +kernel)
  · exact absurd (h.isSeparated hfirm) (by decide +kernel)

end Graft.Splice.Entries
