import Graft.Document.Diagnosis
import Graft.Proofs.Fallible
import Graft.Proofs.Text.Piece

/-!
# Texts without stray ampersands and brackets

A text is tidy if each ampersand in it begins a reference and each angle bracket in it has a
character behind it that is not a space.  What a reader takes is tidy, unless it holds a comment, a
character data section or a processing instruction.

* `Tidy.append`, `Neat.append`: pieces that one reader takes after another;
* `Tidy.not_hasBareAmpersand`, `Tidy.not_contains`: what a tidy text does not show;
* `tidy_of_pieces`: text of which every reference was read.
-/

namespace Graft.Xml

open Text

/-- Each ampersand begins a reference, and each angle bracket has a character behind it that is not
a space. -/
def Tidy : Text → Prop
  | [] => True
  | c :: t =>
    (c = '&' → ∃ w ∈ Diagnosis.referenceStarts, w <+: t) ∧
      (c = '<' → ∃ d u, t = d :: u ∧ d ≠ ' ') ∧ Tidy t

theorem Tidy.append {a b : Text} (ha : Tidy a) (hb : Tidy b) : Tidy (a ++ b) := by
  induction a with
  | nil => exact hb
  | cons c a ih =>
    obtain ⟨hreference, htag, hrest⟩ := ha
    refine ⟨fun hc => ?_, fun hc => ?_, ih hrest⟩
    · obtain ⟨w, hw, hp⟩ := hreference hc
      exact ⟨w, hw, hp.trans (List.prefix_append a b)⟩
    · obtain ⟨d, u, rfl, hd⟩ := htag hc
      exact ⟨d, u ++ b, rfl, hd⟩

/-- Characters of a class without ampersand and bracket. -/
theorem tidy_of_forall {p : Char → Bool} (hand : p '&' = false) (hopen : p '<' = false) {t : Text}
    (h : ∀ c ∈ t, p c = true) : Tidy t := by
  induction t with
  | nil => trivial
  | cons c t ih =>
    obtain ⟨hc, ht⟩ := List.forall_mem_cons.1 h
    refine ⟨?_, ?_, ih ht⟩
    · rintro rfl
      exact absurd hc (Bool.eq_false_iff.1 hand)
    · rintro rfl
      exact absurd hc (Bool.eq_false_iff.1 hopen)

theorem tidy_of_notMem {t : Text} (hand : '&' ∉ t) (hopen : '<' ∉ t) : Tidy t := by
  refine tidy_of_forall (p := fun c => c != '&' && c != '<') rfl rfl fun c hc => ?_
  simp only [Bool.and_eq_true, bne_iff_ne]
  exact ⟨fun h => hand (h ▸ hc), fun h => hopen (h ▸ hc)⟩

theorem tidy_of_names {t : Text} (h : ∀ c ∈ t, isNameChar c = true) : Tidy t :=
  tidy_of_forall (by decide) (by decide) h

theorem tidy_of_white {t : Text} (h : ∀ c ∈ t, isWhite c = true) : Tidy t :=
  tidy_of_forall (by decide) (by decide) h

theorem tidy_tag {c : Char} {t : Text} (hc : c ≠ ' ') (h : Tidy (c :: t)) : Tidy ('<' :: c :: t) :=
  ⟨fun hand => absurd hand (by decide), fun _ => ⟨c, t, rfl, hc⟩, h⟩

/-! ## What a tidy text does not show -/

theorem Tidy.not_hasBareAmpersand {t : Text} (h : Tidy t) :
    Diagnosis.hasBareAmpersand t = false := by
  induction t with
  | nil => rfl
  | cons c t ih =>
    obtain ⟨hreference, -, hrest⟩ := h
    rw [Diagnosis.hasBareAmpersand, ih hrest, Bool.or_false]
    by_cases hc : c = '&'
    · obtain ⟨w, hw, hp⟩ := hreference hc
      have hany : Diagnosis.referenceStarts.any (startsWith · t) = true :=
        List.any_eq_true.2 ⟨w, hw, startsWith_iff_isPrefix.2 hp⟩
      rw [hany, Bool.not_true, Bool.and_false]
    · rw [beq_eq_false_iff_ne.2 hc, Bool.false_and]

theorem Tidy.not_contains {t : Text} (h : Tidy t) : contains "< ".toList t = false := by
  refine Bool.eq_false_iff.2 fun hc => ?_
  obtain ⟨a, b, hab⟩ := contains_iff_isInfix.1 hc
  induction a generalizing t with
  | nil =>
    subst hab
    obtain ⟨-, htag, -⟩ := h
    obtain ⟨d, u, hu, hd⟩ := htag rfl
    exact hd (List.cons.inj hu).1.symm
  | cons c a ih =>
    subst hab
    obtain ⟨-, -, hrest⟩ := h
    exact ih hrest (contains_iff_isInfix.2 ⟨a, b, rfl⟩) rfl

/-! ## References -/

theorem mem_referenceStarts {name : Text} {c : Char} (h : Reference.ofName name = .char c) :
    name ++ ";".toList ∈ Diagnosis.referenceStarts := by
  unfold Reference.ofName at h
  repeat'
    split at h
    · rename_i hname
      rw [hname]
      decide
  cases h

/-- What is read as a character begins as a reference does. -/
theorem exists_of_reference? {t rest : Text} {c : Char} (h : reference? t = some (.char c, rest)) :
    ∃ w ∈ Diagnosis.referenceStarts, w <+: t := by
  have hnumber : ∀ u, ∃ w ∈ Diagnosis.referenceStarts, w <+: '#' :: u := fun u =>
    ⟨"#".toList, by decide, u, rfl⟩
  unfold reference? at h
  split at h
  · exact hnumber _
  · exact hnumber _
  · split at h
    · obtain ⟨u, hu, heq⟩ := Option.map_eq_some_iff.1 h
      obtain ⟨hname, -⟩ := Prod.mk.inj heq
      refine ⟨_, mem_referenceStarts hname, u, ?_⟩
      have hsemi := skip?_eq_some_iff.1 hu
      rw [List.append_assoc, ← hsemi, List.takeWhile_append_dropWhile]
    · cases h

theorem exists_of_referredParts {after part : Text} {parts : List Text} {ps : List Piece}
    (h : referredParts after (part :: parts) = .ok ps) :
    (∃ w ∈ Diagnosis.referenceStarts, w <+: part) ∧ ∃ qs, referredParts after parts = .ok qs := by
  rw [referredParts] at h
  split at h
  · cases h
  · cases h
  · rename_i hreference
    obtain ⟨qs, hqs, -⟩ := bind_eq_ok_iff.1 h
    exact ⟨exists_of_reference? hreference, qs, hqs⟩

/-- An ampersand in front of parts that were read. -/
theorem tidy_of_referredParts {t after : Text} {ps : List Piece}
    (h : referredParts after (splitAt '&' t) = .ok ps) (hopen : '<' ∉ t) : Tidy ('&' :: t) := by
  induction t using splitAt_induction '&' generalizing ps with
  | last l hl =>
    rw [splitAt_of_notMem hl] at h
    obtain ⟨hreference, -⟩ := exists_of_referredParts h
    exact ⟨fun _ => hreference, fun hc => absurd hc (by decide), tidy_of_notMem hl hopen⟩
  | part l t hl ih =>
    rw [splitAt_append, splitAt_of_notMem hl, List.singleton_append] at h
    obtain ⟨⟨w, hw, hp⟩, qs, hqs⟩ := exists_of_referredParts h
    rw [List.mem_append, List.mem_cons, not_or, not_or] at hopen
    obtain ⟨hfront, -, hback⟩ := hopen
    refine ⟨fun _ => ⟨w, hw, hp.trans (List.prefix_append l _)⟩,
      fun hc => absurd hc (by decide), ?_⟩
    exact (tidy_of_notMem hl hfront).append (ih hqs hback)

/-- A text of which every reference was read, and that holds no tag. -/
theorem tidy_of_pieces {t after : Text} {ps : List Piece} (h : pieces t after = .ok ps)
    (hopen : '<' ∉ t) : Tidy t := by
  by_cases hand : '&' ∈ t
  · obtain ⟨l, u, rfl, hl⟩ := List.eq_append_cons_of_mem hand
    rw [pieces, splitAt_append, splitAt_of_notMem hl] at h
    obtain ⟨qs, hqs, -⟩ := bind_eq_ok_iff.1 h
    rw [List.mem_append, List.mem_cons, not_or, not_or] at hopen
    obtain ⟨hfront, -, hback⟩ := hopen
    exact (tidy_of_notMem hl hfront).append (tidy_of_referredParts hqs hback)
  · exact tidy_of_notMem hand hopen

/-! ## Markup that is not looked into -/

/-- The text is tidy, or it holds the start of a comment, of a character data section or of a
processing instruction. -/
def Neat (t : Text) : Prop := Tidy t ∨ contains "<!".toList t ∨ contains "<?".toList t

theorem Tidy.neat {t : Text} (h : Tidy t) : Neat t := .inl h

theorem Neat.append {a b : Text} (ha : Neat a) (hb : Neat b) : Neat (a ++ b) := by
  rcases ha with ha | ha | ha
  · rcases hb with hb | hb | hb
    · exact .inl (ha.append hb)
    · exact .inr (.inl (contains_append_right a hb))
    · exact .inr (.inr (contains_append_right a hb))
  · exact .inr (.inl (contains_append_left ha b))
  · exact .inr (.inr (contains_append_left ha b))

theorem neat_markup (t : Text) : Neat ('<' :: '!' :: t) :=
  .inr (.inl (contains_append_left (w := "<!".toList) (a := ['<', '!']) (by decide) t))

theorem neat_instruction (t : Text) : Neat ('<' :: '?' :: t) :=
  .inr (.inr (contains_append_left (w := "<?".toList) (a := ['<', '?']) (by decide) t))

/-- What is looked into is tidy. -/
theorem Neat.tidy {t : Text} (h : Neat t) (hmarkup : contains "<!".toList t = false)
    (hquestion : contains "<?".toList t = false) : Tidy t := by
  rcases h with h | h | h
  · exact h
  · exact absurd h (Bool.eq_false_iff.1 hmarkup)
  · exact absurd h (Bool.eq_false_iff.1 hquestion)

end Graft.Xml
