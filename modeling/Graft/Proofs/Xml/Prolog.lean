import Graft.Proofs.Xml.Element

/-!
# What stands around the root

A document is its root element with a prolog in front, and white space, comments and processing
instructions behind.

* `misc_eq_ok`: white space, comments and processing instructions are taken whatever root follows;
* `IsMisc.prolog`, `IsMisc.prolog_declared`: every root behind a prolog makes a document;
* `document_eq_ok`: the parts of a document;
* `neat_of_document`: no stray ampersand and no stray bracket stands in one.
-/

namespace Graft.Xml

open Text

/-! ## White space, comments and processing instructions -/

/-- No white space, comment or processing instruction comes next. -/
structure Rests (z : Text) : Prop where
  white : Stops isWhite z
  comment : startsWith "<!--".toList z = false
  instruction : startsWith "<?".toList z = false

theorem misc_succ {gap t : Text} (hg : ∀ c ∈ gap, isWhite c = true) (ht : Stops isWhite t)
    (n : Nat) :
    misc (n + 1) (gap ++ t) =
      if startsWith "<!--".toList t then comment t >>= misc n
      else if startsWith "<?".toList t then instruction t >>= misc n
      else .ok t := by
  rw [misc, skipWhite_append hg ht]

theorem misc_of_rests {gap z : Text} (hg : ∀ c ∈ gap, isWhite c = true) (hz : Rests z) {m : Nat}
    (hm : gap.length ≤ m) : misc m (gap ++ z) = .ok z := by
  cases m with
  | zero =>
    obtain rfl := List.length_eq_zero_iff.1 (Nat.le_zero.1 hm)
    rfl
  | succ m =>
    rw [misc_succ hg hz.white, hz.comment, hz.instruction]
    rfl

/-- The text is blank, or begins with a tag behind blanks. -/
def BeginsTag (u : Text) : Prop := isBlank u ∨ ∃ gap v, isBlank gap ∧ u = gap ++ '<' :: v

/-- White space, comments and processing instructions, which are taken whatever root follows. -/
structure IsMisc (u : Text) : Prop where
  begins : BeginsTag u
  marked : ∀ v, u = '<' :: '?' :: v → Marked v
  takes : ∀ z m, Rests z → u.length ≤ m → misc m (u ++ z) = .ok z

theorem isBlank_of_white {gap : Text} (hg : ∀ c ∈ gap, isWhite c = true) : isBlank gap := by
  refine List.all_eq_true.2 fun c hc => ?_
  have hw := hg c hc
  simp only [isWhite, Bool.or_eq_true, beq_iff_eq] at hw
  rcases hw with ((rfl | rfl) | rfl) | rfl <;> rfl

/-- White space and a piece in front of such a text. -/
theorem IsMisc.cons {gap v u : Text} {c : Char} (hu : IsMisc u)
    (hg : ∀ c ∈ gap, isWhite c = true) (hmarked : c = '?' → Marked v)
    (hstep : ∀ z k, misc (k + 1) (gap ++ ('<' :: c :: v ++ z)) = misc k z) :
    IsMisc (gap ++ ('<' :: c :: v ++ u)) where
  begins := .inr ⟨gap, c :: v ++ u, isBlank_of_white hg, rfl⟩
  marked := by
    intro w heq
    cases gap with
    | nil =>
      obtain ⟨-, heq⟩ := List.cons.inj heq
      obtain ⟨hc, rfl⟩ := List.cons.inj heq
      exact contains_append_left (hmarked hc) u
    | cons d gap =>
      obtain ⟨rfl, -⟩ := List.cons.inj heq
      exact absurd (hg _ List.mem_cons_self) (by decide)
  takes := by
    intro z m hz hm
    simp only [List.length_append, List.length_cons] at hm
    obtain ⟨k, rfl⟩ : ∃ k, m = k + 1 := ⟨m - 1, by omega⟩
    rw [List.append_assoc, List.append_assoc, hstep]
    exact hu.takes z k hz (by omega)

theorem isMisc_of_white {gap : Text} (hg : ∀ c ∈ gap, isWhite c = true) : IsMisc gap where
  begins := .inl (isBlank_of_white hg)
  marked := by
    rintro v rfl
    exact absurd (hg _ List.mem_cons_self) (by decide)
  takes := fun _ _ hz hm => misc_of_rests hg hz hm

/-- White space, comments and processing instructions are taken whatever root follows. -/
theorem misc_eq_ok {n : Nat} {t rest : Text} (h : misc n t = .ok rest) :
    ∃ u, t = u ++ rest ∧ IsMisc u ∧ Neat u := by
  induction n generalizing t with
  | zero =>
    obtain rfl := Except.ok.inj h
    exact ⟨[], rfl, isMisc_of_white fun _ h => (nomatch h), .inl trivial⟩
  | succ n ih =>
    obtain ⟨gap, hg, ht, hstop⟩ := exists_skipWhite t
    generalize skipWhite t = t' at *
    subst ht
    have hopen : ∀ {c : Char} {v z : Text}, Stops isWhite ('<' :: c :: v ++ z) :=
      stops_cons.2 rfl
    rw [misc_succ hg hstop] at h
    split at h
    · rename_i hcomment
      obtain ⟨t₁, rfl⟩ := startsWith_iff_isPrefix.1 hcomment
      obtain ⟨t₂, htaken, hrest⟩ := bind_eq_ok_iff.1 h
      obtain ⟨p, rfl, htakes⟩ := comment_eq_ok htaken
      obtain ⟨u, rfl, hu, hneat⟩ := ih hrest
      have hw : "<!--".toList = '<' :: '!' :: ['-', '-'] := rfl
      have hcut : ∀ z, "<!--".toList ++ (p ++ z) = '<' :: '!' :: ('-' :: '-' :: p) ++ z := fun z => by
        rw [hw]
        rfl
      refine ⟨gap ++ ('<' :: '!' :: ('-' :: '-' :: p) ++ u), ?_,
        hu.cons hg (fun hc => absurd hc (by decide)) fun z k => ?_,
        (tidy_of_white hg).neat.append ((neat_markup _).append hneat)⟩
      · rw [hcut]
        simp only [List.append_assoc]
      · rw [misc_succ hg hopen, ← hcut, if_pos (startsWith_append _ _), bind_of_eq_ok (htakes z)]
    · split at h
      · rename_i hquestion
        obtain ⟨t₁, rfl⟩ := startsWith_iff_isPrefix.1 hquestion
        obtain ⟨t₂, htaken, hrest⟩ := bind_eq_ok_iff.1 h
        have hw : "<?".toList = ['<', '?'] := rfl
        rw [hw] at htaken
        obtain ⟨p, rfl, hmarked, htakes⟩ := instruction_eq_ok htaken
        obtain ⟨u, rfl, hu, hneat⟩ := ih hrest
        refine ⟨gap ++ ('<' :: '?' :: p ++ u), ?_, hu.cons hg (fun _ => hmarked) fun z k => ?_,
          (tidy_of_white hg).neat.append ((neat_instruction p).append hneat)⟩
        · rw [hw]
          simp only [List.append_assoc, List.cons_append, List.nil_append]
        · have hnot : startsWith "<!--".toList ('<' :: '?' :: p ++ z) = false := rfl
          have his : startsWith "<?".toList ('<' :: '?' :: p ++ z) = true := by
            rw [hw]
            exact startsWith_append ['<', '?'] (p ++ z)
          rw [misc_succ hg hopen, hnot, his]
          exact bind_of_eq_ok (htakes z) _
      · obtain rfl := Except.ok.inj h
        exact ⟨gap, rfl, isMisc_of_white hg, (tidy_of_white hg).neat⟩

/-! ## The document -/

theorem declarationWord_eq : "<?xml ".toList = '<' :: '?' :: "xml ".toList := rfl

/-- The text from behind the XML declaration on, if there is one. -/
def behindDeclaration (t : Text) : Except Stop Text :=
  if startsWith "<?xml ".toList t then declaration t else .ok t

theorem document_eq_ok_iff {t : Text} {node : Node} :
    document t = .ok node ↔
      ∃ t₁ t₂ t₃, behindDeclaration (skipMark t) = .ok t₁ ∧ misc t₁.length t₁ = .ok t₂ ∧
        startsWith "<!DOCTYPE".toList t₂ = false ∧ root t₂ = .ok (node, t₃) ∧
        misc t₃.length t₃ = .ok [] := by
  have hdocument : document t = (behindDeclaration (skipMark t) >>= fun t₁ =>
      misc t₁.length t₁ >>= fun t₂ =>
        if startsWith "<!DOCTYPE".toList t₂ then .error ⟨.doctype, t₂⟩
        else root t₂ >>= fun r => misc r.2.length r.2 >>= fun t₄ =>
          if t₄.isEmpty then .ok r.1 else .error ⟨.unknownToken, t₄⟩) := by
    rw [document, behindDeclaration]
    split
    · rfl
    · rfl
  rw [hdocument, bind_eq_ok_iff]
  constructor
  · rintro ⟨t₁, h₁, h⟩
    obtain ⟨t₂, h₂, h'⟩ := bind_eq_ok_iff.1 h
    split at h'
    · cases h'
    · rename_i hdoctype
      obtain ⟨⟨node', t₃⟩, h₃, h''⟩ := bind_eq_ok_iff.1 h'
      obtain ⟨t₄, h₄, hend⟩ := bind_eq_ok_iff.1 h''
      split at hend
      · rename_i hempty
        obtain rfl := List.isEmpty_iff.1 hempty
        obtain rfl := Except.ok.inj hend
        exact ⟨t₁, t₂, t₃, h₁, h₂, Bool.eq_false_iff.2 hdoctype, h₃, h₄⟩
      · cases hend
  · rintro ⟨t₁, t₂, t₃, h₁, h₂, hdoctype, h₃, h₄⟩
    refine ⟨t₁, h₁, bind_eq_ok_iff.2 ⟨t₂, h₂, ?_⟩⟩
    rw [if_neg (Bool.eq_false_iff.1 hdoctype)]
    exact bind_eq_ok_iff.2 ⟨_, h₃, bind_eq_ok_iff.2 ⟨[], h₄, rfl⟩⟩

theorem startsWith_angle_eq_false {c d : Char} {w u : Text} (h : d ≠ c) :
    startsWith ('<' :: d :: w) ('<' :: c :: u) = false := by
  refine Bool.eq_false_iff.2 fun hw => ?_
  obtain ⟨v, hv⟩ := startsWith_iff_isPrefix.1 hw
  obtain ⟨-, hv'⟩ := List.cons.inj hv
  exact h (List.cons.inj hv').1

section
variable {elem : Text} {node : Node}

theorem IsRoot.rests (h : IsRoot elem node) (z : Text) : Rests (elem ++ z) := by
  obtain ⟨c, u, rfl, hc⟩ := h.tag
  obtain ⟨hmark, hquestion, -⟩ := ne_of_isNameStart hc
  have hcomment : "<!--".toList = '<' :: '!' :: ['-', '-'] := rfl
  have hins : "<?".toList = ['<', '?'] := rfl
  exact ⟨stops_cons.2 rfl, hcomment ▸ startsWith_angle_eq_false hmark.symm,
    hins ▸ startsWith_angle_eq_false hquestion.symm⟩

/-- A root behind what was read of a prolog makes a document. -/
theorem IsRoot.document_behind (h : IsRoot elem node) {t t₁ back : Text}
    (h₁ : behindDeclaration (skipMark t) = .ok t₁) (h₂ : misc t₁.length t₁ = .ok (elem ++ back))
    (h₃ : misc back.length back = .ok []) : document t = .ok node := by
  refine document_eq_ok_iff.2 ⟨t₁, elem ++ back, back, h₁, h₂, ?_, h.takes back, h₃⟩
  obtain ⟨c, u, rfl, hc⟩ := h.tag
  obtain ⟨hmark, -, -⟩ := ne_of_isNameStart hc
  have hdoctype : "<!DOCTYPE".toList = '<' :: '!' :: "DOCTYPE".toList := rfl
  exact hdoctype ▸ startsWith_angle_eq_false hmark.symm

end

/-- What stands in front of a root, a byte order mark apart: every root behind it makes a
document. -/
structure IsProlog (front : Text) : Prop where
  begins : BeginsTag front
  marked : ∀ v, front = '<' :: '?' :: v → Marked v
  takes : ∀ {elem back node}, IsRoot elem node → misc back.length back = .ok [] →
    document (front ++ (elem ++ back)) = .ok node

/-- The text is a document: a byte order mark or none, a prolog, the root element, and the rest. -/
structure Parts (t mark front elem back : Text) (node : Node) : Prop where
  text : t = mark ++ (front ++ (elem ++ back))
  reads : document t = .ok node
  mark : mark = [] ∨ mark = ['\ufeff']
  prolog : IsProlog front
  root : IsRoot elem node

theorem skipMark_append_mark (t : Text) : ∃ mark, (mark = [] ∨ mark = ['\ufeff']) ∧
    t = mark ++ skipMark t := by
  unfold skipMark
  split
  · exact ⟨['\ufeff'], .inr rfl, rfl⟩
  · exact ⟨[], .inl rfl, rfl⟩

/-- A word lies in front of a character that it lacks. -/
theorem prefix_of_prefix_append_cons {w p x : Text} {c : Char} (hc : c ∉ w)
    (h : w <+: p ++ c :: x) : w <+: p := by
  have hp : p ++ [c] <+: p ++ c :: x := ⟨x, by simp⟩
  rcases List.prefix_or_prefix_of_prefix h hp with h | h
  · rcases List.prefix_concat_iff.1 h with rfl | h
    · exact absurd (by simp) hc
    · exact h
  · exact absurd (h.subset (by simp)) hc

theorem skipMark_eq_self {t : Text} (h : t.head? ≠ some '\ufeff') : skipMark t = t := by
  unfold skipMark
  split
  · exact absurd rfl h
  · rfl

theorem BeginsTag.head?_ne {front u : Text} (h : BeginsTag front) :
    (front ++ '<' :: u).head? ≠ some '\ufeff' := by
  have hblank : ∀ {gap v : Text}, isBlank gap → (gap ++ '<' :: v).head? ≠ some '\ufeff' := by
    intro gap v hg hm
    cases gap with
    | nil => exact absurd (Option.some.inj hm) (by decide)
    | cons c gap =>
      obtain rfl := Option.some.inj hm
      exact absurd (List.all_eq_true.1 hg _ List.mem_cons_self) (by decide)
  rcases h with h | ⟨gap, v, hg, rfl⟩
  · exact hblank h
  · rw [List.append_assoc]
    exact hblank hg

/-- White space, comments and processing instructions alone are a prolog, unless they read as a
declaration. -/
theorem IsMisc.prolog {front : Text} (h : IsMisc front)
    (hdecl : ¬ "<?xml ".toList <+: front) : IsProlog front where
  begins := h.begins
  marked := h.marked
  takes := by
    intro elem back node hroot hback
    have hmisc := h.takes (elem ++ back) (front ++ (elem ++ back)).length (hroot.rests back)
      (by rw [List.length_append]; exact Nat.le_add_right _ _)
    refine hroot.document_behind ?_ hmisc hback
    obtain ⟨c, u, rfl, hc⟩ := hroot.tag
    obtain ⟨-, hquestion, -⟩ := ne_of_isNameStart hc
    rw [List.cons_append, skipMark_eq_self h.begins.head?_ne]
    refine if_neg fun hs => hdecl ?_
    obtain ⟨z, hz⟩ := startsWith_iff_isPrefix.1 hs
    rw [declarationWord_eq] at hz ⊢
    cases front with
    | nil =>
      obtain ⟨-, hz'⟩ := List.cons.inj hz
      exact absurd (List.cons.inj hz').1.symm hquestion
    | cons d front =>
      obtain ⟨rfl, hz'⟩ := List.cons.inj hz
      refine List.cons_prefix_cons.2 ⟨rfl, ?_⟩
      exact prefix_of_prefix_append_cons (c := '<') (by decide) ⟨z, hz'⟩

/-- A root needs nothing in front of it. -/
theorem isProlog_nil : IsProlog [] := by
  have hmisc : IsMisc [] := isMisc_of_white fun _ h => (nomatch h)
  exact hmisc.prolog (by decide)

/-- White space, comments and processing instructions are a prolog behind a declaration. -/
theorem IsMisc.prolog_declared {u pre : Text} (h : IsMisc pre) (hu : Marked u)
    (htakes : ∀ z, declaration ("<?xml ".toList ++ (u ++ z)) = .ok z) :
    IsProlog ("<?xml ".toList ++ (u ++ pre)) where
  begins := .inr ⟨[], _, rfl, rfl⟩
  marked := by
    intro v hv
    rw [declarationWord_eq] at hv
    obtain ⟨-, hv'⟩ := List.cons.inj hv
    obtain ⟨-, rfl⟩ := List.cons.inj hv'
    exact contains_append_right _ (contains_append_left hu pre)
  takes := by
    intro elem back node hroot hback
    have hmisc := h.takes (elem ++ back) (pre ++ (elem ++ back)).length (hroot.rests back)
      (by rw [List.length_append]; exact Nat.le_add_right _ _)
    refine hroot.document_behind ?_ hmisc hback
    rw [List.append_assoc, List.append_assoc]
    exact (if_pos (startsWith_append _ _)).trans (htakes (pre ++ (elem ++ back)))

/-- Every text that reads as a document has the parts of one. -/
theorem document_eq_ok {t : Text} {node : Node} (h : document t = .ok node) :
    ∃ mark front elem back, Parts t mark front elem back node := by
  obtain ⟨t₁, t₂, t₃, h₁, h₂, -, h₃, -⟩ := document_eq_ok_iff.1 h
  obtain ⟨mark, hmark, ht⟩ := skipMark_append_mark t
  obtain ⟨pre, rfl, hpre, -⟩ := misc_eq_ok h₂
  obtain ⟨elem, rfl, helem, -⟩ := root_eq_ok h₃
  unfold behindDeclaration at h₁
  split at h₁
  · rename_i hdecl
    obtain ⟨t', ht'⟩ := startsWith_iff_isPrefix.1 hdecl
    rw [← ht'] at h₁ ht
    obtain ⟨u, hu, rfl, htakes⟩ := declaration_eq_ok h₁
    refine ⟨mark, "<?xml ".toList ++ (u ++ pre), elem, t₃, ?_, h, hmark,
      hpre.prolog_declared hu htakes, helem⟩
    simpa only [List.append_assoc] using ht
  · rename_i hdecl
    have hsame := Except.ok.inj h₁
    refine ⟨mark, pre, elem, t₃, hsame ▸ ht, h, hmark, hpre.prolog fun hp => hdecl ?_, helem⟩
    obtain ⟨z, hz⟩ := hp
    rw [hsame, ← hz, List.append_assoc]
    exact startsWith_append _ _

/-- What reads as a document is tidy, unless it holds markup that is not looked into. -/
theorem neat_of_document {t : Text} {node : Node} (h : document t = .ok node) : Neat t := by
  obtain ⟨t₁, t₂, t₃, h₁, h₂, -, h₃, h₄⟩ := document_eq_ok_iff.1 h
  obtain ⟨mark, hmark, ht⟩ := skipMark_append_mark t
  obtain ⟨pre, rfl, -, hpre⟩ := misc_eq_ok h₂
  obtain ⟨elem, rfl, -, helem⟩ := root_eq_ok h₃
  obtain ⟨back, hback, -, hneat⟩ := misc_eq_ok h₄
  have htidy : Tidy mark := by
    rcases hmark with rfl | rfl <;> exact tidy_of_notMem (by decide) (by decide)
  rw [ht]
  refine htidy.neat.append ?_
  unfold behindDeclaration at h₁
  split at h₁
  · rename_i hdecl
    obtain ⟨u, hu⟩ := startsWith_iff_isPrefix.1 hdecl
    rw [← hu, declarationWord_eq]
    exact neat_instruction _
  · rw [Except.ok.inj h₁]
    refine hpre.append (helem.append ?_)
    rw [hback, List.append_nil]
    exact hneat

theorem parse_eq_ok_iff {t : Text} {node : Node} : parse t = .ok node ↔ document t = .ok node := by
  rw [parse]
  cases document t with
  | error f => exact ⟨fun h => (nomatch h), fun h => (nomatch h)⟩
  | ok node' =>
    constructor
    · intro h
      exact congrArg Except.ok (Except.ok.inj h)
    · intro h
      exact congrArg Except.ok (Except.ok.inj h)

theorem neat_of_parse {t : Text} {node : Node} (h : parse t = .ok node) : Neat t :=
  neat_of_document (parse_eq_ok_iff.1 h)

end Graft.Xml
