import Graft.Document.Draft
import Graft.Proofs.Document.Unwrap
import Graft.Proofs.Xml.Layout

/-!
# Reading back what was drafted

A draft is rendered as XML and read again, as it is or unwrapped.

* `isElement_root`: the root of a rendering is laid out as a tree;
* `ofNode_node`: what is read of that tree;
* `parts_render`, `evident_render`: nothing in a rendering misleads `unwrap`;
* `parse_eq_document`, `parse_unwrap_eq_document`: both ways of reading give what the draft says,
  trimmed and without what is blank.
-/

namespace Graft

open Text
open Xml (Node IsData IsRun IsTagName IsElement Lines blockOf enclosed lineOf runNodes)

namespace Draft

/-- The texts of a draft can be written as they are, and it is not without a name or a slug. -/
structure Writable (d : Draft) : Prop where
  moduleName : IsRun d.moduleName
  slug : IsRun d.slug
  named : isBlank d.moduleName = false
  slugged : isBlank d.slug = false
  plan : ∀ t, d.plan = some t → IsData t
  paths : ∀ f ∈ d.files, IsRun f.path
  contents : ∀ f ∈ d.files, IsData f.content
  snippets : ∀ field t, d.snippets.get field = some t → IsData t

/-- What a draft says: texts without the blanks around them, and nothing that is blank. -/
def document (d : Draft) : Document where
  moduleName := trim d.moduleName
  slug := trim d.slug
  plan := d.plan.bind Document.nonblank?
  files := (d.files.filter fun f => !isBlank f.path).map fun f => ⟨trim f.path, trim f.content⟩
  snippets :=
    if d.integration then
      { importLine := d.snippets.importLine.bind Document.nonblank?
        route := d.snippets.route.bind Document.nonblank?
        homeCard := d.snippets.homeCard.bind Document.nonblank? }
    else {}

/-! ## The tree of a rendering -/

def runNode (key : String) (t : Text) : Node := .element key.toList (runNodes t)

def sectionNode (key : String) (t : Text) : Node := .element key.toList [.text t]

def fileNode (f : ModuleFile) : Node :=
  .block "file".toList 6 4 [runNode "path" f.path, sectionNode "content" f.content]

def planNodes (plan : Option Text) : List Node := plan.toList.map (sectionNode "plan")

def filesNodes (files : List ModuleFile) : List Node :=
  if files.isEmpty then [] else [.block "files".toList 4 2 (files.map fileNode)]

def snippetNode (s : SnippetField × Text) : Node := sectionNode s.1.key s.2

def snippetsNodes (integration : Bool) (s : Snippets) : List Node :=
  if integration then [.block "integration".toList 4 2 (s.toList.map snippetNode)] else []

/-- The children of the root of a rendering. -/
def nodes (d : Draft) : List Node :=
  [runNode "module_name" d.moduleName] ++ [runNode "slug" d.slug] ++ planNodes d.plan ++
    filesNodes d.files ++ snippetsNodes d.integration d.snippets

/-- The root of a rendering. -/
def node (d : Draft) : Node := .block "module".toList 2 0 d.nodes

/-! ## A rendering is laid out as its tree -/

theorem sectionIn_eq (key : String) (t : Text) :
    sectionIn key t = enclosed key.toList ("<![CDATA[".toList ++ (t ++ "]]>".toList)) := by
  unfold sectionIn enclosed
  simp only [List.append_assoc]
  rfl

theorem renderFile_eq (f : ModuleFile) :
    renderFile f = lineOf 4 (blockOf "file".toList 4
      (lineOf 6 (enclosed "path".toList f.path) ++ lineOf 6 (sectionIn "content" f.content))) := by
  unfold renderFile
  simp [lineOf, blockOf, enclosed, List.replicate]

theorem renderFiles_eq {files : List ModuleFile} (h : files.isEmpty = false) :
    renderFiles files = lineOf 2 (blockOf "files".toList 2 (files.map renderFile).flatten) := by
  rw [renderFiles, h, if_neg Bool.false_ne_true]
  simp [lineOf, blockOf, enclosed, List.replicate]

theorem renderSnippets_eq (s : Snippets) :
    renderSnippets s =
      lineOf 2 (blockOf "integration".toList 2 (s.toList.map renderSnippet).flatten) := by
  unfold renderSnippets
  simp [lineOf, blockOf, enclosed, List.replicate]

/-- The declaration that a rendering begins with. -/
def declaration : Text := "<?xml version=\"1.0\" encoding=\"UTF-8\"?>\n".toList

/-- The lines inside the root of a rendering. -/
def inner (d : Draft) : Text :=
  lineOf 2 (enclosed "module_name".toList d.moduleName) ++
    lineOf 2 (enclosed "slug".toList d.slug) ++ renderPlan d.plan ++ renderFiles d.files ++
      if d.integration then renderSnippets d.snippets else []

/-- The root of a rendering, as it is written. -/
def root (d : Draft) : Text := blockOf "module".toList 0 d.inner

theorem render_eq (d : Draft) : d.render = declaration ++ (d.root ++ ['\n']) := by
  unfold render declaration
  simp [root, inner, lineOf, blockOf, enclosed, List.replicate]

section
variable {key : String} (hk : IsTagName key.toList) {t : Text}
include hk

theorem lines_section (h : IsData t) (n : Nat) :
    Lines n (lineOf n (sectionIn key t)) [sectionNode key t] := by
  rw [sectionIn_eq]
  exact (Xml.isElement_section hk h).lines n

theorem lines_run (h : IsRun t) (n : Nat) :
    Lines n (lineOf n (enclosed key.toList t)) [runNode key t] :=
  (Xml.isElement_run hk h).lines n

end

theorem lines_file {f : ModuleFile} (hp : IsRun f.path) (hc : IsData f.content) :
    Lines 4 (renderFile f) [fileNode f] := by
  have hname : IsTagName "file".toList := by decide
  have hpath := @lines_run "path" (by decide) _ hp 6
  have hcontent := @lines_section "content" (by decide) _ hc 6
  rw [renderFile_eq]
  exact (Xml.isElement_block hname (hpath.append hcontent) 4).lines 4

theorem lines_plan {plan : Option Text} (h : ∀ t, plan = some t → IsData t) :
    Lines 2 (renderPlan plan) (planNodes plan) := by
  cases plan with
  | none => exact Xml.lines_nil 2
  | some t => exact @lines_section "plan" (by decide) _ (h t rfl) 2

theorem lines_files {files : List ModuleFile} (hp : ∀ f ∈ files, IsRun f.path)
    (hc : ∀ f ∈ files, IsData f.content) : Lines 2 (renderFiles files) (filesNodes files) := by
  unfold filesNodes
  cases hempty : files.isEmpty with
  | true =>
    rw [List.isEmpty_iff.1 hempty]
    exact Xml.lines_nil 2
  | false =>
    rw [renderFiles_eq hempty]
    have hname : IsTagName "files".toList := by decide
    have hfiles : Lines 4 (files.map renderFile).flatten (files.map fileNode) :=
      Xml.lines_flatten fun f hf => lines_file (hp f hf) (hc f hf)
    exact (Xml.isElement_block hname hfiles 2).lines 2

theorem isTagName_key (field : SnippetField) : IsTagName field.key.toList := by
  cases field <;> decide

theorem lines_snippets {s : Snippets} (integration : Bool)
    (h : ∀ field t, s.get field = some t → IsData t) :
    Lines 2 (if integration then renderSnippets s else []) (snippetsNodes integration s) := by
  rw [renderSnippets_eq, snippetsNodes]
  cases integration with
  | false => exact Xml.lines_nil 2
  | true =>
    have hname : IsTagName "integration".toList := by decide
    have hsnippets : Lines 4 (s.toList.map renderSnippet).flatten (s.toList.map snippetNode) := by
      refine Xml.lines_flatten fun p hp => ?_
      obtain ⟨field, -, hfield⟩ := List.mem_filterMap.1 hp
      obtain ⟨t, ht, rfl⟩ := Option.map_eq_some_iff.1 hfield
      exact lines_section (isTagName_key field) (h field t ht) 4
    exact (Xml.isElement_block hname hsnippets 2).lines 2

theorem lines_inner {d : Draft} (h : d.Writable) : Lines 2 d.inner d.nodes := by
  have hname := @lines_run "module_name" (by decide) _ h.moduleName 2
  have hslug := @lines_run "slug" (by decide) _ h.slug 2
  exact (((hname.append hslug).append (lines_plan h.plan)).append
    (lines_files h.paths h.contents)).append (lines_snippets d.integration h.snippets)

theorem isElement_root {d : Draft} (h : d.Writable) : IsElement d.root d.node :=
  Xml.isElement_block (by decide) (lines_inner h) 0

/-! ## What is read of the tree -/

/-- Elements are told apart by their names. -/
theorem isNamed_key (key name : String) (ns : List Node) :
    Node.isNamed key.toList (.element name.toList ns) = (name == key) := by
  rw [Node.isNamed, Bool.eq_iff_iff, beq_iff_eq, beq_iff_eq, String.toList_inj]

/-- The first of some elements with one name. -/
theorem find?_named {name : String} {ns : List Node}
    (h : ∀ n ∈ ns, ∃ held, n = .element name.toList held) (key : String) :
    ns.find? (Node.isNamed key.toList) = if name == key then ns.head? else none := by
  cases ns with
  | nil => exact (ite_self none).symm
  | cons n ns =>
    cases hkey : name == key with
    | true =>
      obtain ⟨held, rfl⟩ := h n List.mem_cons_self
      exact List.find?_cons_of_pos ((isNamed_key key name held).trans hkey)
    | false =>
      refine List.find?_eq_none.2 fun m hm => ?_
      obtain ⟨held, rfl⟩ := h m hm
      rw [isNamed_key, hkey]
      exact Bool.false_ne_true

/-- The parts of a rendering are found by their names. -/
theorem find?_nodes (d : Draft) (key : String) :
    d.nodes.find? (Node.isNamed key.toList) =
      (((((if "module_name" == key then some (runNode "module_name" d.moduleName) else none).or
        (if "slug" == key then some (runNode "slug" d.slug) else none)).or
          (if "plan" == key then (planNodes d.plan).head? else none)).or
            (if "files" == key then (filesNodes d.files).head? else none)).or
              (if "integration" == key then (snippetsNodes d.integration d.snippets).head?
                else none)) := by
  have hrun : ∀ name t, ∀ n ∈ [runNode name t], ∃ held, n = .element name.toList held := by
    intro name t n hn
    exact ⟨_, List.mem_singleton.1 hn⟩
  have hplan : ∀ n ∈ planNodes d.plan, ∃ held, n = .element "plan".toList held := by
    intro n hn
    obtain ⟨t, -, rfl⟩ := List.mem_map.1 hn
    exact ⟨_, rfl⟩
  have hfiles : ∀ n ∈ filesNodes d.files, ∃ held, n = .element "files".toList held := by
    intro n hn
    unfold filesNodes at hn
    split at hn
    · cases hn
    · exact ⟨_, List.mem_singleton.1 hn⟩
  have hsnippets : ∀ n ∈ snippetsNodes d.integration d.snippets,
      ∃ held, n = .element "integration".toList held := by
    intro n hn
    unfold snippetsNodes at hn
    split at hn
    · exact ⟨_, List.mem_singleton.1 hn⟩
    · cases hn
  rw [nodes, List.find?_append, List.find?_append, List.find?_append, List.find?_append,
    find?_named (hrun _ _), find?_named (hrun _ _), find?_named hplan, find?_named hfiles,
    find?_named hsnippets]
  rfl

theorem childText?_node (d : Draft) (key : String) :
    Document.childText? d.node key =
      (d.nodes.find? (Node.isNamed key.toList)).bind fun n => Document.nonblank? n.innerText := by
  rw [Document.childText?, node, Node.child?_block]
  rfl

theorem nonblank?_eq {t : Text} (h : isBlank t = false) : Document.nonblank? t = some (trim t) := by
  rw [Document.nonblank?, h]
  rfl

theorem file?_fileNode (f : ModuleFile) :
    Document.file? (fileNode f) =
      if isBlank f.path then none else some ⟨trim f.path, trim f.content⟩ := by
  have hpath : (fileNode f).child? "path".toList = some (runNode "path" f.path) :=
    Node.child?_block _ _ _ _ _
  have hcontent : (fileNode f).child? "content".toList = some (sectionNode "content" f.content) :=
    Node.child?_block _ _ _ _ _
  have hrun : (runNode "path" f.path).innerText = f.path := Node.innerText_run _ _
  have hsection : (sectionNode "content" f.content).innerText = f.content :=
    Node.innerText_section _ _
  simp only [Document.file?, Document.childText?, hpath, hcontent, Option.bind_eq_bind,
    Option.bind_some, hrun, hsection]
  rw [Document.nonblank?]
  split
  · rfl
  · rfl

theorem filesOf_block (files : List ModuleFile) :
    Document.filesOf (.block "files".toList 4 2 (files.map fileNode)) =
      (files.filter fun f => !isBlank f.path).map fun f => ⟨trim f.path, trim f.content⟩ := by
  have hall : (files.map fileNode).filter (Node.isNamed "file".toList) = files.map fileNode := by
    refine List.filter_eq_self.2 fun n hn => ?_
    obtain ⟨f, -, rfl⟩ := List.mem_map.1 hn
    exact isNamed_key "file" "file" _
  rw [Document.filesOf, Node.filter_block, hall, List.filterMap_map]
  clear hall
  induction files with
  | nil => rfl
  | cons f files ih =>
    rw [List.filterMap_cons, Function.comp_apply, file?_fileNode, ih, List.filter_cons]
    cases isBlank f.path with
    | true => rfl
    | false => rfl

theorem filesOf_filesNodes (files : List ModuleFile) :
    ((filesNodes files).head?.map Document.filesOf).getD [] =
      (files.filter fun f => !isBlank f.path).map fun f => ⟨trim f.path, trim f.content⟩ := by
  cases files with
  | nil => rfl
  | cons f files => exact filesOf_block (f :: files)

theorem isNamed_snippetNode (field : SnippetField) (p : SnippetField × Text) :
    Node.isNamed field.key.toList (snippetNode p) = (p.1 == field) := by
  have hkey : ∀ f f' : SnippetField, (f.key == f'.key) = (f == f') := by
    intro f f'
    cases f <;> cases f' <;> decide
  exact (isNamed_key _ _ _).trans (hkey p.1 field)

/-- The snippets are found by their fields. -/
theorem find?_snippetNode (s : Snippets) (field : SnippetField) :
    (s.toList.map snippetNode).find? (Node.isNamed field.key.toList) =
      (s.get field).map (sectionNode field.key) := by
  have hfind : s.toList.find? (·.1 == field) = (s.get field).map fun t => (field, t) := by
    obtain ⟨importLine, route, homeCard⟩ := s
    cases field <;> cases importLine <;> cases route <;> cases homeCard <;> rfl
  have hnamed : Node.isNamed field.key.toList ∘ snippetNode = fun p => p.1 == field :=
    funext (isNamed_snippetNode field)
  rw [List.find?_map, hnamed, hfind, Option.map_map]
  rfl

theorem snippetsOf_snippetsNodes (integration : Bool) (s : Snippets) :
    ((snippetsNodes integration s).head?.map Document.snippetsOf).getD {} =
      if integration then
        { importLine := s.importLine.bind Document.nonblank?
          route := s.route.bind Document.nonblank?
          homeCard := s.homeCard.bind Document.nonblank? }
      else {} := by
  cases integration with
  | false => rfl
  | true =>
    have hread : ∀ field : SnippetField, Document.childText?
        (.block "integration".toList 4 2 (s.toList.map snippetNode)) field.key =
          (s.get field).bind Document.nonblank? := by
      intro field
      rw [Document.childText?, Node.child?_block, find?_snippetNode]
      cases s.get field with
      | none => rfl
      | some t => exact congrArg Document.nonblank? (Node.innerText_section _ _)
    change Document.snippetsOf (.block "integration".toList 4 2 (s.toList.map snippetNode)) = _
    rw [Document.snippetsOf, hread, hread, hread]
    rfl

theorem ofNode_node (d : Draft) (h : d.Writable) : Document.ofNode d.node = .ok d.document := by
  have hname : Document.childText? d.node RequiredField.moduleName.key =
      some (trim d.moduleName) := by
    rw [childText?_node, find?_nodes]
    exact (congrArg _ (Node.innerText_run _ _)).trans (nonblank?_eq h.named)
  have hslug : Document.childText? d.node RequiredField.slug.key = some (trim d.slug) := by
    rw [childText?_node, find?_nodes]
    exact (congrArg _ (Node.innerText_run _ _)).trans (nonblank?_eq h.slugged)
  have hplan : Document.childText? d.node "plan" = d.plan.bind Document.nonblank? := by
    rw [childText?_node, find?_nodes]
    cases d.plan with
    | none => rfl
    | some t => exact congrArg Document.nonblank? (Node.innerText_section _ _)
  have hfiles : d.node.child? "files".toList = (filesNodes d.files).head? := by
    rw [node, Node.child?_block, find?_nodes]
    exact Option.or_none
  have hsnippets : d.node.child? "integration".toList =
      (snippetsNodes d.integration d.snippets).head? := by
    rw [node, Node.child?_block, find?_nodes]
    rfl
  rw [Document.ofNode, hname, hslug, hplan, hfiles, hsnippets, filesOf_filesNodes,
    snippetsOf_snippetsNodes]
  rfl

/-! ## The parts of a rendering -/

theorem isProlog_declaration : Xml.IsProlog declaration := by
  have hread : Xml.declaration ("<?xml ".toList ++ "version=\"1.0\" encoding=\"UTF-8\"?>".toList) =
      .ok [] := by decide
  have hgap : Xml.IsMisc ['\n'] := Xml.isMisc_of_white (Text.forall_mem_of_all rfl)
  obtain ⟨u, hu, htext, htakes⟩ := Xml.declaration_eq_ok hread
  rw [List.append_nil] at htext
  have hprolog := hgap.prolog_declared hu htakes
  rw [← htext] at hprolog
  exact hprolog

theorem parts_render (d : Draft) (h : d.Writable) :
    Xml.Parts d.render [] declaration d.root ['\n'] d.node where
  text := d.render_eq
  reads := by
    rw [render_eq]
    exact isProlog_declaration.takes (isElement_root h).toIsRoot rfl
  mark := .inl rfl
  prolog := isProlog_declaration
  root := (isElement_root h).toIsRoot

theorem root_eq (d : Draft) :
    d.root = "<module>".toList ++ ('\n' :: d.inner) ++ "</module>".toList := by
  simp [root, blockOf, enclosed]

theorem tagName_root (d : Draft) : Document.tagName d.root = "module".toList := rfl

theorem closing_root (d : Draft) : Document.closingTag (Document.tagName d.root) <:+ d.root :=
  ⟨_, (root_eq d).symm⟩

theorem tagged_root (d : Draft) : Document.Tagged d.root where
  first := ⟨_, rfl⟩
  last := by
    obtain ⟨v, hv⟩ := closing_root d
    exact ⟨v ++ "</module".toList, by rw [← hv, List.append_assoc]; rfl⟩

/-- Nothing but the newline at the end is trimmed off. -/
theorem trim_render (d : Draft) : trim d.render = declaration ++ d.root := by
  have htrim := @Document.trimBoth_append isSpace _ (tagged_root d) rfl rfl declaration ['\n']
  have hfront : declaration.dropWhile isSpace = declaration := rfl
  rw [render_eq, Document.trim_eq_trimBoth, htrim, hfront]
  exact congrArg (declaration ++ ·) (List.append_nil d.root)

/-- The last line is the closing tag, since the lines inside the root are whole. -/
theorem lastLine_render {d : Draft} (h : d.Writable) :
    lastLine (trim d.render) = "</module>".toList := by
  obtain ⟨u, hu, -⟩ := lines_inner h
  have htext : declaration ++ ("<module>".toList ++ (u ++ ['\n']) ++ "</module>".toList) =
      declaration ++ ("<module>".toList ++ u) ++ ['\n'] ++ "</module>".toList := by
    simp only [List.append_assoc]
  rw [trim_render, root_eq, hu, htext, lastLine_append (lastLine_concat_newline _)]
  exact lastLine_of_oneLine (by decide)

theorem evident_render (d : Draft) (h : d.Writable) :
    Document.Evident d.render declaration d.root ['\n'] where
  fence := by
    rw [lastLine_render h]
    decide
  tag := rfl
  first := by decide
  start := .inl (by decide)
  closing := closing_root d
  last := by
    rw [tagName_root]
    decide

theorem parse_eq_document {d : Draft} (h : d.Writable) :
    Document.parse d.render = .ok d.document := by
  have hblank : isBlank d.render = false := by
    rw [d.render_eq]
    rfl
  exact Document.parse_eq_ok_iff.2 ⟨hblank, d.node, (d.parts_render h).reads, d.ofNode_node h⟩

theorem parse_unwrap_eq_document {d : Draft} (h : d.Writable) :
    Document.parse (Document.unwrap d.render) = .ok d.document :=
  Document.parse_unwrap_of_parts (d.parts_render h) (d.evident_render h) (parse_eq_document h)

end Draft

namespace Document

/-- **A rendering reads as what was drafted**, trimmed and without what is blank, whether it is
unwrapped or not. -/
theorem parse_render {d : Draft} (h : d.Writable) :
    parse d.render = .ok d.document ∧ parse (unwrap d.render) = .ok d.document :=
  ⟨Draft.parse_eq_document h, Draft.parse_unwrap_eq_document h⟩

/-- A plan that quotes the ends of a document, and a file without a path. -/
theorem parse_render_quoting :
    let plan := "]] \n</module>\n```\n<?xml <module> & ]]".toList
    let d : Draft :=
      { moduleName := " Film ".toList
        slug := "film".toList
        plan := some plan
        files := [⟨"  ".toList, "a".toList⟩, ⟨"b.ts".toList, "1 < 2\n".toList⟩]
        snippets := { importLine := some "import".toList, route := some " ".toList } }
    let doc : Document :=
      { moduleName := "Film".toList
        slug := "film".toList
        plan := some plan
        files := [⟨"b.ts".toList, "1 < 2".toList⟩]
        snippets := { importLine := some "import".toList } }
    d.Writable ∧ parse d.render = .ok doc ∧ parse (unwrap d.render) = .ok doc := by
  intro plan d doc
  have hwritable : d.Writable :=
    { moduleName := by decide
      slug := by decide
      named := by decide
      slugged := by decide
      plan := by
        intro t ht
        obtain rfl := Option.some.inj ht
        decide
      paths := by decide
      contents := by decide
      snippets := by
        intro field t ht
        cases field with
        | importLine =>
          obtain rfl := Option.some.inj ht
          decide
        | route =>
          obtain rfl := Option.some.inj ht
          decide
        | homeCard => cases ht }
  have hdocument : d.document = doc := by decide
  rw [← hdocument]
  exact ⟨hwritable, parse_render hwritable⟩

end Document

end Graft
