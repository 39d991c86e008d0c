import Graft.Document.Reader
import Graft.Proofs.Xml.Prolog

/-!
# What a diagnosis shows

* `exists_isMalformed_iff`: a text does not parse where the reader of documents calls it malformed;
* `exists_parse_of_isBlank`: a blank text does not parse;
* `diagnosis_agrees`: a stray ampersand or bracket is the sign of a text that does not parse, and
  the failure is the one that the reader of documents reports.
-/

namespace Graft

open Text

namespace Diagnosis

/-- A text parses exactly where there is no fault. -/
theorem parses_eq_false_iff {t : Text} :
    (of t).parses = false ↔ ∃ f, Xml.parse t = .error f := by
  cases h : Xml.parse t with
  | ok node =>
    have hnone : (of t).failure = none := by simp only [of, h]
    simp [parses, hnone]
  | error f =>
    have hsome : (of t).failure = some ⟨f, contextOf t f.position.line⟩ := by simp only [of, h]
    simp [parses, hsome]

theorem failure_of_error {t : Text} {f : Xml.Fault} (h : Xml.parse t = .error f) :
    (of t).failure.map ParseFailure.fault = some f := by
  simp only [of, h, Option.map_some]

/-- A text that parses shows no stray ampersand and no stray bracket, unless it holds a comment, a
character data section or a processing instruction. -/
theorem not_stray {t : Text} {node : Xml.Node} (h : Xml.parse t = .ok node)
    (hmarkup : contains "<!".toList t = false) (hquestion : contains "<?".toList t = false) :
    (of t).issues.unescapedAmpersand = false ∧ contains "< ".toList t = false := by
  have htidy := (Xml.neat_of_parse h).tidy hmarkup hquestion
  exact ⟨htidy.not_hasBareAmpersand, htidy.not_contains⟩

end Diagnosis

namespace Document

/-- A document that parses is not malformed, whatever it lacks. -/
theorem isMalformed_of_ofNode {root : Xml.Node} {e : ReadError} (h : ofNode root = .error e) :
    e.isMalformed = false := by
  have hrequired : ∀ {o : Option Text} {f : RequiredField} {e : ReadError},
      o.elim (.error (.missingField f)) .ok = (.error e : Except ReadError Text) →
        e.isMalformed = false := by
    intro o f e ho
    cases o with
    | none =>
      obtain rfl := Except.error.inj ho
      rfl
    | some _ => cases ho
  rw [ofNode] at h
  rcases bind_eq_error_iff.1 h with h | ⟨_, -, h⟩
  · exact hrequired h
  · rcases bind_eq_error_iff.1 h with h | ⟨_, -, h⟩
    · exact hrequired h
    · cases h

/-- A document begins with a tag, so a blank text is none. -/
theorem exists_parse_of_isBlank {t : Text} (h : isBlank t) : ∃ f, Xml.parse t = .error f := by
  cases hread : Xml.parse t with
  | error f => exact ⟨f, rfl⟩
  | ok node =>
    obtain ⟨mark, front, elem, back, hparts⟩ :=
      Xml.document_eq_ok (Xml.parse_eq_ok_iff.1 hread)
    obtain ⟨c, u, helem, -⟩ := hparts.root.tag
    have hopen : '<' ∈ t := by
      rw [hparts.text, helem]
      simp
    exact absurd hopen (notMem_of_isBlank h rfl)

/-- A text is malformed where it does not parse. -/
theorem exists_isMalformed_iff {t : Text} :
    (∃ e, parse t = .error e ∧ e.isMalformed = true) ↔ ∃ f, Xml.parse t = .error f := by
  rw [parse]
  split
  · rename_i hblank
    exact iff_of_true ⟨.empty, rfl, rfl⟩ (exists_parse_of_isBlank hblank)
  · split
    · rename_i f hf
      exact iff_of_true ⟨.xml f, rfl, rfl⟩ ⟨f, hf⟩
    · rename_i node hnode
      constructor
      · rintro ⟨e, he, hmalformed⟩
        rw [isMalformed_of_ofNode he] at hmalformed
        cases hmalformed
      · rintro ⟨f, hf⟩
        rw [hnode] at hf
        cases hf

theorem parse_of_xml {t : Text} {f : Xml.Fault} (h : parse t = .error (.xml f)) :
    Xml.parse t = .error f := by
  rw [parse] at h
  split at h
  · cases h
  · split at h
    · rename_i f' hf
      obtain rfl := ReadError.xml.inj (Except.error.inj h)
      exact hf
    · have hmalformed := isMalformed_of_ofNode h
      cases hmalformed

end Document

/-- **The signs of a diagnosis agree with the parser.**  A stray ampersand or bracket, in a text
without markup that is not looked into, is one of a text that does not parse; texts that do not
parse are those that read as malformed, with the same fault. -/
theorem diagnosis_agrees (t : Text) :
    (contains "<!".toList t = false → contains "<?".toList t = false →
      (Diagnosis.of t).issues.unescapedAmpersand = true ∨ contains "< ".toList t = true →
        (Diagnosis.of t).parses = false) ∧
    ((Diagnosis.of t).parses = false ↔
      ∃ e, Document.parse t = .error e ∧ e.isMalformed = true) ∧
    ∀ f, Document.parse t = .error (.xml f) →
      (Diagnosis.of t).failure.map ParseFailure.fault = some f := by
  refine ⟨?stray, ?malformed, ?fault⟩
  case stray =>
    intro hmarkup hquestion hsign
    rw [Diagnosis.parses_eq_false_iff]
    cases hread : Xml.parse t with
    | error f => exact ⟨f, rfl⟩
    | ok node =>
      obtain ⟨hand, hopen⟩ := Diagnosis.not_stray hread hmarkup hquestion
      rcases hsign with hsign | hsign
      · exact absurd hsign (Bool.eq_false_iff.1 hand)
      · exact absurd hsign (Bool.eq_false_iff.1 hopen)
  case malformed => rw [Diagnosis.parses_eq_false_iff, Document.exists_isMalformed_iff]
  case fault =>
    intro f hf
    exact Diagnosis.failure_of_error (Document.parse_of_xml hf)

theorem diagnosis_agrees_ampersand :
    (Diagnosis.of "<a>\n  1 & 2\n</a>".toList).parses = false ∧
      (Diagnosis.of "<a>\n  1 & 2\n</a>".toList).failure.map ParseFailure.fault =
        some ⟨.malformedReference, 2, 5⟩ := by
  obtain ⟨stray, -, fault⟩ := diagnosis_agrees "<a>\n  1 & 2\n</a>".toList
  constructor
  · exact stray (by decide) (by decide) (.inl (by decide))
  · exact fault _ rfl

end Graft
