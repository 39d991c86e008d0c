import Graft.Proofs.Xml.Element
import Mathlib.Data.List.TakeWhile

/-!
# Elements that are written

What is written between tags is read back, whatever element it stands in and whatever follows.

* `IsData`, `IsRun`: what can be written as it is, in a character data section or without one;
* `Holds`: a text that is read as nodes;
* `isElement_enclosed`: an element is read as it was written, inside another or as the root;
* `IsElement.lines`, `isElement_block`: elements on lines of their own;
* `child?_block`: an element finds its children between the blanks they are laid out with.
-/

namespace Graft.Xml

open Text

/-! ## Texts that can be written as they are -/

/-- A character data section can hold the text. -/
structure IsData (t : Text) : Prop where
  chars : ∀ c ∈ t, isXmlChar c = true ∧ c ≠ '\r'
  /-- No section ends in it. -/
  unclosed : contains "]]>".toList t = false

/-- An element can hold the text without a section. -/
structure IsRun (t : Text) : Prop extends IsData t where
  /-- No tag and no reference begins in it. -/
  plain : ∀ c ∈ t, c ≠ '<' ∧ c ≠ '&'

instance (t : Text) : Decidable (IsData t) :=
  decidable_of_iff (t.all (fun c => isXmlChar c && c != '\r') ∧ contains "]]>".toList t = false) <| by
    constructor
    · rintro ⟨hall, hunclosed⟩
      exact ⟨by simpa using hall, hunclosed⟩
    · rintro ⟨hchars, hunclosed⟩
      exact ⟨by simpa using hchars, hunclosed⟩

instance (t : Text) : Decidable (IsRun t) :=
  decidable_of_iff (IsData t ∧ t.all fun c => c != '<' && c != '&') <| by
    constructor
    · rintro ⟨hdata, hall⟩
      exact ⟨hdata, by simpa using hall⟩
    · rintro ⟨hdata, hplain⟩
      exact ⟨hdata, by simpa using hplain⟩

theorem isRun_nil : IsRun [] where
  chars := fun _ hc => (nomatch hc)
  unclosed := rfl
  plain := fun _ hc => (nomatch hc)

section
variable {t : Text}

theorem IsData.all_isXmlChar (h : IsData t) : t.all isXmlChar :=
  List.all_eq_true.2 fun c hc => (h.chars c hc).1

theorem IsData.lineEnds (h : IsData t) : Xml.lineEnds (t.map .plain) = t :=
  lineEnds_plain t fun hm => (h.chars _ hm).2 rfl

/-- No mark that ends a section begins in one mark and ends in another. -/
theorem not_straddles_sectionEnd (t z : Text) : ¬ Straddles "]]>".toList t ("]]>".toList ++ z) := by
  have hw : "]]>".toList = [']', ']', '>'] := rfl
  rw [hw]
  rintro ⟨u, v, hu, hv, heq, -, hpre⟩
  obtain ⟨c, u, rfl⟩ := List.exists_cons_of_ne_nil hu
  obtain ⟨-, heq⟩ := List.cons.inj heq
  cases u with
  | nil =>
    subst heq
    obtain ⟨-, hpre⟩ := List.cons_prefix_cons.1 hpre
    exact absurd (List.cons_prefix_cons.1 hpre).1 (by decide)
  | cons d u =>
    obtain ⟨-, heq⟩ := List.cons.inj heq
    cases u with
    | nil =>
      subst heq
      exact absurd (List.cons_prefix_cons.1 hpre).1 (by decide)
    | cons e u =>
      obtain ⟨-, heq⟩ := List.cons.inj heq
      exact hv (List.append_eq_nil_iff.1 heq.symm).2

/-- A section is read as what it holds. -/
theorem IsData.characterData (h : IsData t) (z : Text) :
    Xml.characterData ("<![CDATA[".toList ++ (t ++ ("]]>".toList ++ z))) = .ok (t, z) := by
  have hdrop : ∀ t : Text, ("<![CDATA[".toList ++ t).drop 9 = t := fun _ => rfl
  have hself : cut? "]]>".toList ("]]>".toList ++ z) = some ([], z) := rfl
  have hcut : cut? "]]>".toList (t ++ ("]]>".toList ++ z)) = some (t, z) := by
    rw [cut?_append_of_none (contains_eq_false_iff.1 h.unclosed) (not_straddles_sectionEnd t z),
      hself, Option.map_some, List.append_nil]
  rw [Xml.characterData, hdrop, upToText, hcut]
  refine bind_eq_ok_iff.2 ⟨(t, z), ?_, ?_⟩
  · exact bind_eq_ok_iff.2 ⟨(), checkChars_eq_ok_iff.2 h.all_isXmlChar, rfl⟩
  · exact congrArg (fun t => Except.ok (t, z)) h.lineEnds

/-- A run of text is read as it is, up to a tag. -/
theorem IsRun.textRun (h : IsRun t) (z : Text) :
    Xml.textRun (t ++ '<' :: z) = .ok (t, '<' :: z) := by
  have hall : ∀ c ∈ t, (c != '<') = true := fun c hc => bne_iff_ne.2 (h.plain c hc).1
  obtain ⟨htake, hdrop⟩ := takeWhile_append_of_stops hall (stops_cons.2 rfl : Stops _ ('<' :: z))
  have hpieces : pieces t ('<' :: z) = .ok (t.map .plain) := by
    rw [pieces, splitAt_of_notMem fun hm => (h.plain _ hm).2 rfl]
    exact congrArg Except.ok (List.append_nil _)
  rw [Xml.textRun, htake, hdrop]
  refine bind_eq_ok_iff.2 ⟨(), checkChars_eq_ok_iff.2 h.all_isXmlChar, ?_⟩
  rw [h.unclosed]
  exact bind_eq_ok_iff.2 ⟨_, hpieces, congrArg (fun t => Except.ok (t, '<' :: z)) h.lineEnds⟩

end

/-! ## Tags -/

/-- The text can be written as the name of an element, without a prefix. -/
structure IsTagName (name : Text) : Prop where
  start : isPlainName name = true
  chars : ∀ c ∈ name, isNameChar c = true ∧ c ≠ ':'

instance (name : Text) : Decidable (IsTagName name) :=
  decidable_of_iff (isPlainName name ∧ name.all fun c => isNameChar c && c != ':') <| by
    constructor
    · rintro ⟨hstart, hall⟩
      exact ⟨hstart, by simpa using hall⟩
    · rintro ⟨hstart, hchars⟩
      exact ⟨hstart, by simpa using hchars⟩

section
variable {name : Text} (h : IsTagName name)
include h

theorem IsTagName.qname (z : Text) : Xml.qname (name ++ '>' :: z) = .ok (⟨[], name⟩, '>' :: z) := by
  obtain ⟨htake, hdrop⟩ :=
    takeWhile_append_of_stops (fun c hc => (h.chars c hc).1) (stops_cons.2 rfl : Stops _ ('>' :: z))
  have hcolon : name.dropWhile (· != ':') = [] :=
    List.dropWhile_eq_nil_iff.2 fun c hc => bne_iff_ne.2 (h.chars c hc).2
  rw [Xml.qname, htake, hdrop, hcolon]
  exact if_pos h.start

theorem IsTagName.startTag (outer : Scope) (z : Text) :
    Xml.startTag outer (name ++ '>' :: z) = .ok (⟨⟨[], name⟩, outer, .opened⟩, z) := by
  refine (startTag_eq_ok_iff (by simp)).2 ⟨'>' :: z, ⟨[], []⟩, h.qname z, by simp [xmlns], ?_⟩
  have hnone : ∀ c ∈ ([] : Text), isWhite c = true := fun _ hc => (nomatch hc)
  exact ⟨@tagRest_opened _ _ [] hnone z, rfl, rfl, rfl⟩

theorem IsTagName.closeTag (z : Text) :
    Xml.closeTag ('<' :: '/' :: (name ++ '>' :: z)) = .ok (⟨[], name⟩, z) := by
  refine bind_eq_ok_iff.2 ⟨_, h.qname z, bind_eq_ok_iff.2 ⟨z, ?_, rfl⟩⟩
  exact expectChar_eq_ok_iff.2 rfl

end

/-! ## What stands inside an element -/

/-- The element with more nodes in it. -/
def Frame.addAll (f : Frame) (ns : List Node) : Frame := { f with held := ns.reverse ++ f.held }

theorem Frame.addAll_append (f : Frame) (ns ms : List Node) :
    f.addAll (ns ++ ms) = (f.addAll ns).addAll ms := by
  simp [Frame.addAll]

/-- The text is read as nodes, whatever element it stands in and whatever follows. -/
def Holds (t : Text) (ns : List Node) : Prop :=
  ∃ k ≤ t.length, ∀ n f outer z, content (n + k) f outer (t ++ z) = content n (f.addAll ns) outer z

/-- The node of a run of text, if there is any text. -/
def runNodes (t : Text) : List Node := if t.isEmpty then [] else [.text t]

theorem holds_nil : Holds [] [] := ⟨0, Nat.le_refl 0, fun _ _ _ _ => rfl⟩

section
variable {t u : Text} {ns ms : List Node}

theorem Holds.append (ht : Holds t ns) (hu : Holds u ms) : Holds (t ++ u) (ns ++ ms) := by
  obtain ⟨k, hk, ht⟩ := ht
  obtain ⟨m, hm, hu⟩ := hu
  refine ⟨m + k, ?_, ?_⟩
  · rw [List.length_append]
    omega
  · intro n f outer z
    rw [List.append_assoc, ← Nat.add_assoc, ht, hu, Frame.addAll_append]

theorem holds_section (h : IsData t) :
    Holds ("<![CDATA[".toList ++ (t ++ "]]>".toList)) [.text t] := by
  refine ⟨1, ?_, ?_⟩
  · have hopen : "<![CDATA[".toList.length = 9 := rfl
    rw [List.length_append, hopen]
    omega
  · intro n f outer z
    rw [List.append_assoc, List.append_assoc, content_section, bind_of_eq_ok (h.characterData z)]
    rfl

/-- A run of text is read up to the tag behind it. -/
theorem content_run (h : IsRun t) :
    ∃ k ≤ t.length, ∀ n f outer z,
      content (n + k) f outer (t ++ '<' :: z) =
        content n (f.addAll (runNodes t)) outer ('<' :: z) := by
  cases t with
  | nil => exact ⟨0, Nat.le_refl 0, fun _ _ _ _ => rfl⟩
  | cons c t =>
    refine ⟨1, Nat.succ_pos _, ?_⟩
    intro n f outer z
    have hc : c ≠ '<' := (h.plain c List.mem_cons_self).1
    rw [List.cons_append, content_text n f outer hc, ← List.cons_append,
      bind_of_eq_ok (h.textRun z)]
    rfl

theorem Holds.behind (hu : Holds ('<' :: u) ns) (h : IsRun t) :
    Holds (t ++ '<' :: u) (runNodes t ++ ns) := by
  obtain ⟨k, hk, ht⟩ := content_run h
  obtain ⟨m, hm, hu⟩ := hu
  refine ⟨m + k, ?_, ?_⟩
  · rw [List.length_append]
    omega
  · intro n f outer z
    rw [List.append_assoc, List.cons_append, ← Nat.add_assoc, ht, ← List.cons_append, hu,
      Frame.addAll_append]

end

/-! ## Elements -/

/-- An element as it is written, without attributes. -/
def enclosed (name t : Text) : Text :=
  '<' :: (name ++ '>' :: (t ++ '<' :: '/' :: (name ++ ['>'])))

theorem enclosed_append (name t z : Text) :
    enclosed name t ++ z = '<' :: (name ++ '>' :: (t ++ '<' :: '/' :: (name ++ '>' :: z))) := by
  simp [enclosed]

/-- The text is an element, inside another one or alone. -/
structure IsElement (e : Text) (node : Node) : Prop extends IsRoot e node where
  holds : Holds e [node]

section
variable {name t gap : Text} {ns : List Node}

/-- What stands between the tags of an element is read up to the closing tag. -/
theorem content_enclosed (hn : IsTagName name) (ht : Holds t ns) (hg : IsRun gap) :
    ∃ k ≤ (t ++ gap).length + 1, ∀ n scope outer z,
      content (n + k) ⟨⟨[], name⟩, scope, []⟩ outer (t ++ gap ++ '<' :: '/' :: (name ++ '>' :: z)) =
        match outer with
        | [] => .ok (.element name (ns ++ runNodes gap), z)
        | g :: outer => content n (g.add (.element name (ns ++ runNodes gap))) outer z := by
  obtain ⟨k, hk, ht⟩ := ht
  obtain ⟨m, hm, hg⟩ := content_run hg
  refine ⟨1 + m + k, ?_, ?_⟩
  · rw [List.length_append]
    omega
  · intro n scope outer z
    have hclose : ∀ f : Frame, (f.addAll (ns ++ runNodes gap)).close =
        .element f.name.name (f.held.reverse ++ (ns ++ runNodes gap)) := by
      intro f
      simp [Frame.addAll, Frame.close]
    rw [List.append_assoc, ← Nat.add_assoc, ← Nat.add_assoc, ht, hg, ← Frame.addAll_append,
      content_close, bind_of_eq_ok (hn.closeTag z), hclose]
    exact if_pos rfl

theorem holds_enclosed (hn : IsTagName name) (ht : Holds t ns) (hg : IsRun gap) :
    Holds (enclosed name (t ++ gap)) [.element name (ns ++ runNodes gap)] := by
  obtain ⟨c, u, hname, hc⟩ := exists_of_isPlainName hn.start
  obtain ⟨hmark, hquestion, hslash⟩ := ne_of_isNameStart hc
  obtain ⟨k, hk, hcontent⟩ := content_enclosed hn ht hg
  refine ⟨k + 1, ?_, ?_⟩
  · simp only [enclosed, List.length_cons, List.length_append] at hk ⊢
    omega
  · intro n f outer z
    rw [enclosed_append, ← Nat.add_assoc, hname, List.cons_append,
      content_open _ f outer hmark hquestion hslash, ← List.cons_append, ← hname,
      bind_of_eq_ok (hn.startTag f.scope _)]
    exact hcontent n f.scope (f :: outer) z

theorem isRoot_enclosed (hn : IsTagName name) (ht : Holds t ns) (hg : IsRun gap) :
    IsRoot (enclosed name (t ++ gap)) (.element name (ns ++ runNodes gap)) where
  tag := by
    obtain ⟨c, u, hname, hc⟩ := exists_of_isPlainName hn.start
    refine ⟨c, u ++ '>' :: (t ++ gap ++ '<' :: '/' :: (name ++ ['>'])), ?_, hc⟩
    rw [enclosed, hname]
    rfl
  takes := by
    intro z
    obtain ⟨k, hk, hcontent⟩ := content_enclosed hn ht hg
    obtain ⟨n, hbound⟩ : ∃ n,
        (t ++ gap ++ '<' :: '/' :: (name ++ '>' :: z)).length + 1 = n + k := by
      refine ⟨_, (Nat.sub_add_cancel ?_).symm⟩
      rw [List.length_append]
      omega
    rw [enclosed_append, root_open, bind_of_eq_ok (hn.startTag [] _)]
    dsimp only
    rw [hbound]
    exact hcontent n [] [] z

/-- An element is read as it was written. -/
theorem isElement_enclosed (hn : IsTagName name) (ht : Holds t ns) (hg : IsRun gap) :
    IsElement (enclosed name (t ++ gap)) (.element name (ns ++ runNodes gap)) :=
  ⟨isRoot_enclosed hn ht hg, holds_enclosed hn ht hg⟩

end

section
variable {name t : Text} (hn : IsTagName name)
include hn

theorem isElement_run (h : IsRun t) : IsElement (enclosed name t) (.element name (runNodes t)) :=
  isElement_enclosed hn holds_nil h

theorem isElement_section (h : IsData t) :
    IsElement (enclosed name ("<![CDATA[".toList ++ (t ++ "]]>".toList)))
      (.element name [.text t]) := by
  have helement := isElement_enclosed hn (holds_section h) isRun_nil
  rw [List.append_nil] at helement
  exact helement

end

/-! ## Elements on lines of their own -/

/-- The indentation of a line, with the newline in front of it. -/
def newline (n : Nat) : Text := '\n' :: List.replicate n ' '

theorem isRun_newline (n : Nat) : IsRun (newline n) := by
  have hmem : ∀ c ∈ newline n, c = '\n' ∨ c = ' ' := fun c hc =>
    (List.mem_cons.1 hc).imp_right List.eq_of_mem_replicate
  refine ⟨⟨?_, ?_⟩, ?_⟩
  · intro c hc
    rcases hmem c hc with rfl | rfl
    · decide
    · decide
  · refine Bool.eq_false_iff.2 fun hin => ?_
    have hend : ']' ∈ newline n := (contains_iff_isInfix.1 hin).subset (by decide)
    rcases hmem _ hend with h | h
    · exact absurd h (by decide)
    · exact absurd h (by decide)
  · intro c hc
    rcases hmem c hc with rfl | rfl
    · decide
    · decide

namespace Node

/-- Nodes on lines of their own, which are indented by `n`. -/
def laid (n : Nat) (ns : List Node) : List Node := ns.flatMap fun x => [.text (newline n), x]

/-- An element that is indented by `m`, with its children on lines that are indented by `n`. -/
def block (name : Text) (n m : Nat) (ns : List Node) : Node :=
  .element name (laid n ns ++ [.text (newline m)])

section
variable (key name : Text) (n m : Nat) (ns : List Node)

theorem filter_block :
    (block name n m ns).children.filter (isNamed key) = ns.filter (isNamed key) := by
  have hlaid : (laid n ns).filter (isNamed key) = ns.filter (isNamed key) := by
    induction ns with
    | nil => rfl
    | cons x ns ih =>
      have hcons : laid n (x :: ns) = .text (newline n) :: x :: laid n ns := rfl
      have htext : ¬ isNamed key (.text (newline n)) := by simp [isNamed]
      rw [hcons, List.filter_cons_of_neg htext, List.filter_cons, ih, List.filter_cons]
  rw [block, children, List.filter_append, hlaid]
  exact List.append_nil _

/-- An element finds its children between the blanks that they are laid out with. -/
theorem child?_block : (block name n m ns).child? key = ns.find? (isNamed key) := by
  rw [child?, ← List.head?_filter, filter_block, List.head?_filter]

end

theorem innerText_run (name t : Text) : (element name (runNodes t)).innerText = t := by
  cases t with
  | nil => rfl
  | cons c t => exact List.append_nil _

theorem innerText_section (name t : Text) : (element name [.text t]).innerText = t :=
  List.append_nil t

end Node

/-- A text on a line of its own, which is indented by `n`. -/
def lineOf (n : Nat) (e : Text) : Text := List.replicate n ' ' ++ e ++ ['\n']

/-- An element that is indented by `m`, around whole lines. -/
def blockOf (name : Text) (m : Nat) (t : Text) : Text :=
  enclosed name ('\n' :: (t ++ List.replicate m ' '))

/-- Whole lines with an element each, which are indented by `n`.  The newline in front of a line goes
with the line, and the one that ends it with what follows. -/
def Lines (n : Nat) (t : Text) (ns : List Node) : Prop :=
  ∃ u, '\n' :: t = u ++ ['\n'] ∧ Holds u (Node.laid n ns)

section
variable {n : Nat} {t u e name : Text} {ns ms : List Node} {node : Node}

theorem lines_nil (n : Nat) : Lines n [] [] := ⟨[], rfl, holds_nil⟩

theorem Lines.append (ht : Lines n t ns) (hu : Lines n u ms) : Lines n (t ++ u) (ns ++ ms) := by
  obtain ⟨a, ha, hread⟩ := ht
  obtain ⟨b, hb, hread'⟩ := hu
  refine ⟨a ++ b, ?_, ?_⟩
  · rw [← List.cons_append, ha, List.append_assoc, List.singleton_append, hb, List.append_assoc]
  · rw [Node.laid, List.flatMap_append]
    exact hread.append hread'

theorem lines_flatten {α : Type} {f : α → Text} {g : α → Node} {xs : List α}
    (h : ∀ x ∈ xs, Lines n (f x) [g x]) : Lines n (xs.map f).flatten (xs.map g) := by
  induction xs with
  | nil => exact lines_nil n
  | cons x xs ih =>
    have hx := h x List.mem_cons_self
    exact hx.append (ih fun y hy => h y (List.mem_cons_of_mem x hy))

theorem IsElement.lines (h : IsElement e node) (n : Nat) :
    Lines n (lineOf n e) [node] := by
  obtain ⟨c, u, rfl, -⟩ := h.tag
  refine ⟨newline n ++ '<' :: c :: u, ?_, h.holds.behind (isRun_newline n)⟩
  simp [newline, lineOf]

/-- An element with its children on lines of their own. -/
theorem isElement_block (hn : IsTagName name) (h : Lines n t ns) (m : Nat) :
    IsElement (blockOf name m t) (.block name n m ns) := by
  obtain ⟨u, hu, hread⟩ := h
  rw [blockOf, ← List.cons_append, hu, List.append_assoc]
  exact isElement_enclosed hn hread (isRun_newline m)

end

end Graft.Xml
