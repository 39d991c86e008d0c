import Graft.Proofs.Batch.Uniqueness
import Graft.Proofs.Document.RoundTrip
import Graft.Proofs.Record.Conventional

/-!
# Conventional modules

A module whose snippets are made from its plain name and its slug goes through a batch from end to
end: its document is written and read back, its record is complete, and what is found in it are the
name and the slug it was made from.

* `Conventional.writable`: the draft can be written as it is;
* `Conventional.read_render`: the record that a batch reads of it, unwrapped or not;
* `Conventional.admissible`: nothing that other conventional modules show makes it a duplicate;
* `conventional_processed`: so a batch of conventional modules processes all of them.
-/

namespace Graft

open Text Metadata Draft

/-- The record of a conventional module. -/
def conventionalRecord (index : Nat) (moduleName slug : Text) : Record where
  index := index
  importSnippet := some (importOf (pascalCase moduleName) slug)
  routeSnippet := some (routeOf (pascalCase moduleName) slug)
  entrySnippet := some (entryOf moduleName slug "Star".toList)
  component := some (pascalCase moduleName)
  routePath := some ('/' :: slug)
  entryPath := some ('/' :: slug)
  icon := some "Star".toList

/-- The document of a conventional module. -/
def conventionalText (m : Text × Text) : Text := (conventional m.1 m.2).render

/-- Neither target shows the paths of a conventional module. -/
structure Unseen (targets : Targets) (slug : Text) : Prop where
  router : contains (routeAttribute ('/' :: slug)) targets.router = false
  listing : ∀ key ∈ entryKeys ('/' :: slug), contains key targets.listing = false

/-! ## The snippets can be written as they are -/

/-- The characters of conventional snippets. -/
def isSnippetChar (c : Char) : Bool := isPlainChar c || "<>/=\"\x7b\x7d@;:,\n".toList.contains c

theorem isData_of_isSnippetChar {t : Text} (ht : t.all isSnippetChar = true) : Xml.IsData t := by
  have h : ∀ c ∈ t, isSnippetChar c = true := List.all_eq_true.1 ht
  have hmark : ∀ c, isSnippetChar c = true → Xml.isXmlChar c = true ∧ c ≠ '\r' ∧ c ≠ ']' := by
    intro c hc
    rw [isSnippetChar, Bool.or_eq_true, List.contains_iff_mem] at hc
    rcases hc with hc | hc
    · refine ⟨isXmlChar_of_isPlainChar hc, ?_, ?_⟩
      · rintro rfl
        exact notMem_markupMarks hc (by simp [markupMarks])
      · rintro rfl
        exact notMem_markupMarks hc (by simp [markupMarks])
    · have hall : ∀ c ∈ "<>/=\"\x7b\x7d@;:,\n".toList,
          Xml.isXmlChar c = true ∧ c ≠ '\r' ∧ c ≠ ']' := forall_mem_of_all rfl
      exact hall c hc
  refine ⟨fun c hc => ⟨(hmark c (h c hc)).1, (hmark c (h c hc)).2.1⟩, ?_⟩
  rw [← Bool.not_eq_true, contains_iff_isInfix]
  intro hin
  have hm : ']' ∈ t := hin.subset (by simp)
  exact (hmark _ (h _ hm)).2.2 rfl

theorem all_isSnippetChar {t : Text} (ht : ∀ c ∈ t, isPlainChar c = true) :
    t.all isSnippetChar = true := by
  refine List.all_eq_true.2 fun c hc => ?_
  rw [isSnippetChar, ht c hc]
  rfl

theorem isRun_of_plain {t : Text} (ht : ∀ c ∈ t, isPlainChar c = true) : Xml.IsRun t where
  toIsData := isData_of_isSnippetChar (all_isSnippetChar ht)
  plain := by
    intro c hc
    constructor
    · rintro rfl
      exact notMem_of_plain ht (by simp [markupMarks]) hc
    · rintro rfl
      exact notMem_of_plain ht (by simp [markupMarks]) hc

/-- A text whose ends are not blank is read as it is. -/
theorem nonblank?_of_ends {c d : Char} (hc : isSpace c = false) (hd : isSpace d = false) (t : Text) :
    Document.nonblank? (c :: (t ++ [d])) = some (c :: (t ++ [d])) := by
  have hblank : isBlank (c :: (t ++ [d])) = false := by
    rw [isBlank, List.all_cons, hc, Bool.false_and]
  have hstart : trimStart (c :: (t ++ [d])) = c :: (t ++ [d]) := by
    rw [trimStart, List.dropWhile_cons_of_neg (by simp [hc])]
  have hend : trimEnd (c :: (t ++ [d])) = c :: (t ++ [d]) :=
    trimEnd_of_last ⟨c :: t, d, rfl, hd⟩
  rw [Document.nonblank?, hblank, trim, hstart, hend]
  rfl

section
variable {component slug : Text}

theorem isData_importOf (hc : component.all isSnippetChar) (hs : slug.all isSnippetChar) :
    Xml.IsData (importOf component slug) := by
  apply isData_of_isSnippetChar
  unfold importOf
  simp only [List.all_append, hc, hs, Bool.and_true]
  rfl

theorem isData_routeOf (hc : component.all isSnippetChar) (hs : slug.all isSnippetChar) :
    Xml.IsData (routeOf component slug) := by
  apply isData_of_isSnippetChar
  unfold routeOf
  simp only [List.all_append, hc, hs, Bool.and_true]
  rfl

theorem isData_entryOf {moduleName icon : Text} (hn : moduleName.all isSnippetChar)
    (hs : slug.all isSnippetChar) (hi : icon.all isSnippetChar) :
    Xml.IsData (entryOf moduleName slug icon) := by
  apply isData_of_isSnippetChar
  unfold entryOf
  simp only [List.all_append, hn, hs, hi, Bool.and_true]
  rfl

theorem nonblank?_importOf (component slug : Text) :
    Document.nonblank? (importOf component slug) = some (importOf component slug) := by
  have htext : importOf component slug = 'i' :: ("mport ".toList ++ component ++
      " from \"@modules/".toList ++ slug ++ ['"'] ++ [';']) := by
    unfold importOf
    simp
  rw [htext]
  exact nonblank?_of_ends rfl rfl _

theorem nonblank?_routeOf (component slug : Text) :
    Document.nonblank? (routeOf component slug) = some (routeOf component slug) := by
  have htext : routeOf component slug = '<' :: ("Route path=\"/".toList ++ slug ++
      "\" element=\x7b<".toList ++ component ++ " />\x7d /".toList ++ ['>']) := by
    unfold routeOf
    simp
  rw [htext]
  exact nonblank?_of_ends rfl rfl _

theorem nonblank?_entryOf (moduleName slug icon : Text) :
    Document.nonblank? (entryOf moduleName slug icon) = some (entryOf moduleName slug icon) := by
  have htext : entryOf moduleName slug icon = '\x7b' :: ("\n  path: \"/".toList ++ slug ++
      "\",\n  title: \"".toList ++ moduleName ++ "\",\n  icon: ".toList ++ icon ++ ",\n".toList ++
        ['\x7d']) := by
    unfold entryOf
    simp
  rw [htext]
  exact nonblank?_of_ends rfl rfl _

end

namespace Conventional

variable {moduleName slug : Text} (h : Conventional moduleName slug)
include h

theorem isPlainChar_slug : ∀ c ∈ slug, isPlainChar c = true :=
  fun c hc => isPlainChar_of_isSlugChar (h.slug c hc)

theorem isData_snippets (field : SnippetField) (t : Text)
    (ht : (conventional moduleName slug).snippets.get field = some t) : Xml.IsData t := by
  have hcomponent := all_isSnippetChar (isPlainChar_of_mem_pascalCase (t := moduleName))
  have hslug := all_isSnippetChar h.isPlainChar_slug
  cases field with
  | importLine =>
    obtain rfl := Option.some.inj ht
    exact isData_importOf hcomponent hslug
  | route =>
    obtain rfl := Option.some.inj ht
    exact isData_routeOf hcomponent hslug
  | homeCard =>
    obtain rfl := Option.some.inj ht
    exact isData_entryOf (all_isSnippetChar h.plain) hslug rfl

/-- A name with a letter is not blank. -/
theorem not_isBlank_moduleName : isBlank moduleName = false := by
  have hblank : ∀ fresh t, isBlank t → pascalCaseFrom fresh t = [] := by
    intro fresh t ht
    induction t generalizing fresh with
    | nil => rfl
    | cons c t ih =>
      rw [isBlank, List.all_cons, Bool.and_eq_true] at ht
      have hc : ¬ (isLetter c || isDigit c) = true := by
        intro hword
        have hspace := isSpace_eq_false_of_isIdentRest (isIdentRest_of_letter_or_digit hword)
        rw [hspace] at ht
        cases ht.1
      rw [pascalCaseFrom, if_neg hc]
      exact ih true ht.2
  obtain ⟨c, u, hname, -⟩ := h.named
  rw [← Bool.not_eq_true]
  intro hb
  rw [pascalCase, hblank true moduleName hb] at hname
  cases hname

theorem not_isBlank_slug : isBlank slug = false := by
  obtain ⟨c, u, rfl⟩ := List.exists_cons_of_ne_nil h.slugged
  have hc := h.slug c List.mem_cons_self
  have hspace : isSpace c = false :=
    forall_isPlainChar (p := fun c => isSlugChar c = true → isSpace c = false) (by decide +kernel)
      (isPlainChar_of_isSlugChar hc) hc
  rw [isBlank, List.all_cons, hspace, Bool.false_and]

theorem writable : (conventional moduleName slug).Writable where
  moduleName := isRun_of_plain h.plain
  slug := isRun_of_plain h.isPlainChar_slug
  named := h.not_isBlank_moduleName
  slugged := h.not_isBlank_slug
  plan := fun _ ht => nomatch ht
  paths := fun _ hf => nomatch hf
  contents := fun _ hf => nomatch hf
  snippets := h.isData_snippets

/-! ## The record of a conventional module -/

/-- What is found in the document of a conventional module is what it was made from. -/
theorem ofDocument_document (index : Nat) :
    Record.ofDocument index (conventional moduleName slug).document =
      conventionalRecord index moduleName slug := by
  have hsnippets : (conventional moduleName slug).document.snippets =
      (conventional moduleName slug).snippets := by
    change Snippets.mk (Document.nonblank? _) (Document.nonblank? _) (Document.nonblank? _) = _
    rw [nonblank?_importOf, nonblank?_routeOf, nonblank?_entryOf]
    rfl
  rw [Record.ofDocument, hsnippets]
  change Record.mk _ _ _ _ (component? _) (routePath? _) (entryPath? _) (icon? _) = _
  rw [h.component?_importOf, h.routePath?_routeOf, h.entryPath?_entryOf,
    h.icon?_entryOf rfl]
  rfl

/-- Every integrator reads that record, whether it unwraps documents or not. -/
theorem read_render (i : Integrator) (index : Nat) :
    i.read index (conventional moduleName slug).render =
      .ok (conventionalRecord index moduleName slug) := by
  rw [Integrator.read]
  split
  · rw [parse_unwrap_eq_document h.writable, Except.map, h.ofDocument_document]
  · rw [parse_eq_document h.writable, Except.map, h.ofDocument_document]

/-- Behind records of other slugs, in targets without its paths, the record is new. -/
theorem admissible (index : Nat) {targets : Targets} (hunseen : Unseen targets slug)
    {earlier : List Record}
    (hothers : ∀ q ∈ earlier, ∃ index' moduleName' slug', Conventional moduleName' slug' ∧
      slug ≠ slug' ∧ q = conventionalRecord index' moduleName' slug') :
    Integrator.Admissible targets earlier (conventionalRecord index moduleName slug) where
  complete := by
    intro field
    cases field with
    | importLine => rfl
    | route => rfl
    | homeCard => rfl
  named := rfl
  router := by
    intro hshown
    obtain ⟨p, hp, hcontains⟩ := hshown.path
    obtain rfl := Option.some.inj hp
    rw [hunseen.router] at hcontains
    cases hcontains
  listing := by
    rintro ⟨p, hp, key, hkey, hcontains⟩
    obtain rfl := Option.some.inj hp
    rw [hunseen.listing key hkey] at hcontains
    cases hcontains
  batch := by
    intro q hq
    obtain ⟨index', moduleName', slug', h', hne, rfl⟩ := hothers q hq
    rintro ⟨t, p, ht, hp, hcontains⟩
    obtain rfl := Option.some.inj ht
    obtain rfl := Option.some.inj hp
    have hcomponent : '"' ∉ pascalCase moduleName' :=
      notMem_of_plain isPlainChar_of_mem_pascalCase (by simp [markupMarks])
    apply hne
    exact (contains_routeOf_iff hcomponent (h'.notMem_slug (by simp [markupMarks]))
      (h.notMem_slug (by simp [markupMarks]))).1 hcontains

end Conventional

/-! ## Batches of conventional modules -/

namespace Integrator

variable {modules : List (Text × Text)} (h : ∀ m ∈ modules, Conventional m.1 m.2)
include h

/-- The records that are accepted of the first modules are those of modules with other slugs. -/
theorem accepted_conventional (i : Integrator) (targets : Targets)
    (hslugs : (modules.map (·.2)).Nodup) {k : Nat} {m : Text × Text} (hm : modules[k]? = some m) :
    ∀ q ∈ i.accepted targets ((modules.map conventionalText).take k),
      ∃ index' moduleName' slug', Conventional moduleName' slug' ∧ m.2 ≠ slug' ∧
        q = conventionalRecord index' moduleName' slug' := by
  intro q hq
  obtain ⟨j, input, hinput, hread, -⟩ := (i.mem_accepted_iff targets).1 hq
  rw [List.getElem?_take] at hinput
  obtain ⟨hj, hinput⟩ := Option.ite_none_right_eq_some.1 hinput
  rw [List.getElem?_map] at hinput
  obtain ⟨m', hm', rfl⟩ := Option.map_eq_some_iff.1 hinput
  have h' := h m' (List.mem_of_getElem? hm')
  refine ⟨j + 1, m'.1, m'.2, h', ?_, ?_⟩
  · intro heq
    have hpairwise := List.pairwise_iff_getElem.1 (List.pairwise_map.1 hslugs)
    obtain ⟨hjlt, hje⟩ := List.getElem?_eq_some_iff.1 hm'
    obtain ⟨hklt, hke⟩ := List.getElem?_eq_some_iff.1 hm
    exact hpairwise j k hjlt hklt hj (by rw [hje, hke, heq])
  · exact Except.ok.inj (hread.symm.trans (h'.read_render i (j + 1)))

/-- **Conventional modules go through from end to end.**  The document of a module whose snippets are
made from a plain name and a slug is read back as the complete record that it was made for.  A batch
of such modules with different slugs processes all of them, if the targets do not show their paths,
whatever components and titles they share. -/
theorem conventional_processed (i : Integrator) :
    (∀ m ∈ modules, ∀ index, (Document.parse (conventionalText m)).map (Record.ofDocument index) =
      .ok (conventionalRecord index m.1 m.2)) ∧
    ((modules.map (·.2)).Nodup → ∀ targets, (∀ m ∈ modules, Unseen targets m.2) →
      (i.run (modules.map conventionalText) targets).records.map (·.status) =
        modules.map fun _ => .processed) := by
  constructor
  · intro m hm index
    rw [conventionalText, parse_eq_document (h m hm).writable, Except.map,
      (h m hm).ofDocument_document]
  · intro hslugs targets hunseen
    apply List.ext_getElem?
    intro k
    rw [List.getElem?_map, run_records_getElem?, List.getElem?_map, List.getElem?_map]
    cases hm : modules[k]? with
    | none => rfl
    | some m =>
      have hread := (h m (List.mem_of_getElem? hm)).read_render i (k + 1)
      have hnew := (h m (List.mem_of_getElem? hm)).admissible (k + 1)
        (hunseen m (List.mem_of_getElem? hm)) (accepted_conventional h i targets hslugs hm)
      have hstaged := i.stages_accepted targets ((modules.map conventionalText).take k)
      have hstatus := (i.report_processed_iff hread).2 ((accept_iff_admissible hstaged _).2 hnew)
      exact congrArg some hstatus

omit h in
/-- Two modules with one component, the slug of the one being the beginning of the other's. -/
theorem conventional_processed_namesakes :
    let modules := [("Widget icon".toList, "demo".toList), ("widget-Icon".toList, "demo-2".toList)]
    (∀ m ∈ modules, Conventional m.1 m.2) ∧ (modules.map (·.2)).Nodup ∧
      (∀ m ∈ modules, Unseen bare m.2) ∧
      (Document.parse (conventionalText ("Widget icon".toList, "demo".toList))).map
          (Record.ofDocument 1) = .ok (conventionalRecord 1 "Widget icon".toList "demo".toList) ∧
      (standard.run (modules.map conventionalText) bare).records.map (·.status) =
        [.processed, .processed] := by
  intro modules
  have hmodules : ∀ m ∈ modules, Conventional m.1 m.2 := by
    have hnamed : pascalCase "Widget icon".toList = 'W' :: "idgetIcon".toList ∧
        pascalCase "widget-Icon".toList = 'W' :: "idgetIcon".toList := by decide +kernel
    have hchars : ∀ m ∈ modules, m.1.all isPlainChar ∧ m.2 ≠ [] ∧ m.2.all isSlugChar := by
      decide +kernel
    intro m hm
    obtain ⟨hplain, hslugged, hslug⟩ := hchars m hm
    refine ⟨List.all_eq_true.1 hplain, ⟨'W', "idgetIcon".toList, ?_, rfl⟩, hslugged,
      List.all_eq_true.1 hslug⟩
    rcases List.mem_cons.1 hm with rfl | hm
    · exact hnamed.1
    · rw [List.mem_singleton.1 hm]
      exact hnamed.2
  have hslugs : (modules.map (·.2)).Nodup := by decide +kernel
  have hunseen : ∀ m ∈ modules, Unseen bare m.2 := by
    have hall : ∀ m ∈ modules, contains (routeAttribute ('/' :: m.2)) bare.router = false ∧
        ∀ key ∈ entryKeys ('/' :: m.2), contains key bare.listing = false := by
      decide +kernel
    exact fun m hm => ⟨(hall m hm).1, (hall m hm).2⟩
  obtain ⟨hread, hrun⟩ := conventional_processed hmodules standard
  exact ⟨hmodules, hslugs, hunseen, hread _ List.mem_cons_self 1,
    hrun hslugs bare hunseen⟩

end Integrator

end Graft
