import Graft.Proofs.Batch.Patching
import Graft.Proofs.Batch.Setup
import Graft.Proofs.Record.Metadata
import Graft.Proofs.Splice.Imports
import Graft.Proofs.Splice.Routes

/-!
# What a batch does to the router

A batch inserts two blocks into the router, each at the place that its strategy finds in the router
as it was before the batch (`router_insertions`).  A word on one line that the router shows is still
shown when the place for routes does not cut it.
-/

namespace Graft.Integrator

open Splice Text Metadata

theorem snippetsOf_importLine (staged : List Staged) :
    snippetsOf staged .importLine = staged.map (·.snippets.importLine) := by
  rw [snippetsOf_eq, ← List.filterMap_eq_map]
  rfl

theorem snippetsOf_route (staged : List Staged) :
    snippetsOf staged .route = staged.map (·.snippets.route) := by
  rw [snippetsOf_eq, ← List.filterMap_eq_map]
  rfl

variable {config : Config} {i : Integrator}

section
variable (h : ofConfig config = .ok i) (staged : List Staged) (targets : Targets)
include h

/-! ## The router after each of its two splices -/

theorem imports_text {a : Anchor} (hs : staged ≠ [])
    (ha : Imports.findAnchor config.anchors targets.router = some a) :
    i.textBefore staged targets .route =
      a.before ++ Imports.inserted a (snippetsOf staged .importLine) ++ a.rest := by
  have hn : snippetsOf staged .importLine ≠ [] := by
    rw [snippetsOf_importLine]
    simpa using hs
  have ha' : (i.strategy .importLine).findAnchor (i.textBefore staged targets .importLine) =
      some a := by
    rw [importStrategy h]
    exact ha
  have ht := i.insertionOf_text staged targets hn ha'
  rw [importStrategy h] at ht
  exact ht

theorem imports_text_of_none (ha : Imports.findAnchor config.anchors targets.router = none) :
    i.textBefore staged targets .route = targets.router := by
  refine i.insertionOf_text_of_none staged targets (k := .importLine) ?_
  rw [importStrategy h]
  exact ha

theorem routes_text {a : Anchor} (hs : staged ≠ [])
    (ha : Routes.findAnchor config.anchors (i.textBefore staged targets .route) = some a) :
    (i.patchAll staged targets).targets.router =
      a.before ++ Routes.inserted a (snippetsOf staged .route) ++ a.rest := by
  have hn : snippetsOf staged .route ≠ [] := by
    rw [snippetsOf_route]
    simpa using hs
  have ha' : (i.strategy .route).findAnchor (i.textBefore staged targets .route) = some a := by
    rw [routeStrategy h]
    exact ha
  have ht := i.insertionOf_text staged targets hn ha'
  rw [routeStrategy h] at ht
  rw [patchAll_eq, ← Routes.splice_text]
  exact ht

theorem routes_text_of_none
    (ha : Routes.findAnchor config.anchors (i.textBefore staged targets .route) = none) :
    (i.patchAll staged targets).targets.router = i.textBefore staged targets .route := by
  rw [patchAll_eq]
  refine i.insertionOf_text_of_none staged targets (k := .route) ?_
  rw [routeStrategy h]
  exact ha

/-! ## What the router shows -/

/-- A word on one line that the router shows is still shown after the imports. -/
theorem contains_imports_text {w : Text} (hw : '\n' ∉ w) (hc : contains w targets.router) :
    contains w (i.textBefore staged targets .route) := by
  change contains w (i.insertionOf staged targets .importLine).text
  rcases i.insertionOf_text_cases staged targets .importLine with ht | ⟨a, ha, ht⟩
  · rw [ht]
    exact hc
  · rw [importStrategy h] at ha ht
    obtain ⟨hta, hl⟩ := Imports.findAnchor_spec ha
    rw [ht, Imports.splice_text]
    refine contains_insert (hta ▸ hc) ?_ _
    rcases hl with hl | hl
    · exact not_straddles_of_lineStart hl hw
    · rw [hl]
      exact not_straddles_nil w a.before

/-- A word on one line that the place for routes does not cut is still shown after the routes. -/
theorem contains_routes_text {w : Text} (hw : '\n' ∉ w) (hcut : Routes.Uncut config.anchors w)
    (hc : contains w (i.textBefore staged targets .route)) :
    contains w (i.patchAll staged targets).targets.router := by
  rw [patchAll_eq]
  rcases i.insertionOf_text_cases staged targets .route with ht | ⟨a, ha, ht⟩
  · exact ht ▸ hc
  · rw [routeStrategy h] at ha ht
    dsimp only
    rw [ht, Routes.splice_text]
    rw [(Routes.findAnchor_spec ha).1] at hc
    exact contains_insert hc (Routes.not_straddles_findAnchor ha hw hcut) _

/-- A solid word of a staged import is shown after the imports. -/
theorem contains_staged_import {s : Staged} (hs : s ∈ staged) {a : Anchor}
    (ha : Imports.findAnchor config.anchors targets.router = some a) {w : Text} (hw : Solid w)
    (hc : contains w s.snippets.importLine) : contains w (i.textBefore staged targets .route) := by
  rw [imports_text h staged targets (List.ne_nil_of_mem hs) ha]
  refine contains_append_left (contains_append_right _ ?_) _
  exact Imports.contains_inserted hw (mem_snippetsOf hs rfl) hc a

/-- A solid word of a staged route is shown after the routes. -/
theorem contains_staged_route {s : Staged} (hs : s ∈ staged) {a : Anchor}
    (ha : Routes.findAnchor config.anchors (i.textBefore staged targets .route) = some a)
    {w : Text} (hw : Solid w) (hc : contains w s.snippets.route) :
    contains w (i.patchAll staged targets).targets.router := by
  rw [routes_text h staged targets (List.ne_nil_of_mem hs) ha]
  refine contains_append_left (contains_append_right _ ?_) _
  exact Routes.contains_inserted hw (mem_snippetsOf hs rfl) hc a

end

/-! ## The two blocks -/

/-- A block of text, and the place of a text at which it goes. -/
structure Block where
  place : Nat
  text : Text

/-- The imports, each trimmed, ended by a semicolon and on lines of its own, where they go in a
text.  They come after a newline when they go behind a last line that lacks it. -/
def importBlock (s : AnchorSettings) (t : Text) (imports : List Text) : Block :=
  match Imports.findAnchor s t with
  | none => ⟨0, []⟩
  | some a =>
    if imports = [] then ⟨a.before.length, []⟩
    else
      ⟨a.before.length,
        (if a.rest = [] ∧ lastLine t ≠ [] then ['\n'] else []) ++
          (imports.map fun s => Imports.terminated s ++ ['\n']).flatten⟩

/-- The routes under the indentation of the place at which they go in a text, each followed by an
empty line.  In the middle of a line they are on lines of their own, too. -/
def routeBlock (s : AnchorSettings) (t : Text) (routes : List Text) : Block :=
  match Routes.findAnchor s t with
  | none => ⟨0, []⟩
  | some a =>
    let lines := (routes.map fun s => indentBlock s a.indent ++ "\n\n".toList).flatten
    if routes = [] then ⟨a.before.length, []⟩
    else if lastLine a.before = [] then ⟨a.before.length, lines⟩
    else ⟨a.before.length, '\n' :: lines ++ a.indent⟩

section
variable {s : AnchorSettings} {t : Text} {snippets : List Text} {a : Anchor}

theorem importBlock_of_some (h : Imports.findAnchor s t = some a) (hs : snippets ≠ []) :
    importBlock s t snippets = ⟨a.before.length, Imports.inserted a snippets⟩ := by
  have hl : a.rest = [] ∧ lastLine t ≠ [] ↔ a.rest = [] ∧ lastLine a.before ≠ [] := by
    refine and_congr_right fun hr => ?_
    rw [(Imports.findAnchor_spec h).1, hr, List.append_nil]
  simp only [importBlock, h, if_neg hs, hl, Imports.inserted, Imports.lead_eq, Imports.block]

theorem routeBlock_of_some (h : Routes.findAnchor s t = some a) (hs : snippets ≠ []) :
    routeBlock s t snippets = ⟨a.before.length, Routes.inserted a snippets⟩ := by
  simp only [routeBlock, h, if_neg hs, Routes.inserted, Routes.block, List.isEmpty_iff]
  split <;> rfl

theorem importBlock_nil (s : AnchorSettings) (t : Text) : (importBlock s t []).text = [] := by
  unfold importBlock
  split <;> simp

theorem routeBlock_nil (s : AnchorSettings) (t : Text) : (routeBlock s t []).text = [] := by
  unfold routeBlock
  split <;> simp

end

/-- Imports that show no part of a route's anchor leave the place for routes alone. -/
theorem routes_moved {s : AnchorSettings} (hs : s.fallbackMarker ≠ [])
    (hm : '\n' ∉ s.fallbackMarker) {t : Text} {a : Anchor} (ha : Imports.findAnchor s t = some a)
    {imports : List Text}
    (hi : ∀ m ∈ imports, ∀ w ∈ [s.fallbackMarker, Routes.wildcardPath, Routes.routeOpen],
      contains w (Imports.terminated m) = false) :
    Routes.MovedIn a.before (Imports.inserted a imports) a.rest (Routes.findAnchor s) := by
  have hplace := (Imports.findAnchor_spec ha).2
  obtain ⟨hbehind, hfront⟩ := Imports.inserted_spec hplace imports
  have hclear : ∀ w ∈ [s.fallbackMarker, Routes.wildcardPath, Routes.routeOpen], w ≠ [] →
      '\n' ∉ w → Clear w a.before (Imports.inserted a imports) a.rest := by
    intro w hw hne hnl
    refine clear_of_lines hnl ?_ ?_ hbehind
    · rw [← Bool.not_eq_true, Imports.contains_inserted_iff hnl hne]
      rintro ⟨m, hmem, hc⟩
      rw [hi m hmem w hw] at hc
      cases hc
    · by_cases hl : lastLine a.before = []
      · exact .inl hl
      · exact .inr ⟨hplace.resolve_left hl, hfront.resolve_left hl⟩
  refine Routes.findAnchor_moved hs (hclear _ (by simp) hs hm)
    (hclear _ (by simp) Routes.wildcardPath_ne_nil (by decide +kernel))
    (hclear _ (by simp) Routes.routeOpen_ne_nil (by decide +kernel)) hplace hbehind

/-- The router after both splices, by the two blocks. -/
theorem router_text (h : ofConfig config = .ok i) (hm : '\n' ∉ config.anchors.fallbackMarker)
    (staged : List Staged) (targets : Targets)
    (hi : ∀ m ∈ staged.map (·.snippets.importLine),
      ∀ w ∈ [config.anchors.fallbackMarker, Routes.wildcardPath, Routes.routeOpen],
        contains w (Imports.terminated m) = false) :
    let imports := importBlock config.anchors targets.router (staged.map (·.snippets.importLine))
    let routes := routeBlock config.anchors targets.router (staged.map (·.snippets.route))
    (i.patchAll staged targets).targets.router =
      insertAt (routes.place + if imports.place ≤ routes.place then imports.text.length else 0)
        routes.text (insertAt imports.place imports.text targets.router) := by
  intro imports routes
  by_cases hs : staged = []
  · subst hs
    simp only [imports, routes, List.map_nil, importBlock_nil, routeBlock_nil, insertAt_nil]
    rfl
  have himp : staged.map (·.snippets.importLine) ≠ [] := by simpa using hs
  have hrt : staged.map (·.snippets.route) ≠ [] := by simpa using hs
  cases ha : Imports.findAnchor config.anchors targets.router with
  | none =>
    have hb : imports = ⟨0, []⟩ := by simp only [imports, importBlock, ha]
    have ht := imports_text_of_none h staged targets ha
    simp only [hb, insertAt_nil, List.length_nil, ite_self, Nat.add_zero]
    cases hr : Routes.findAnchor config.anchors targets.router with
    | none =>
      have hb : routes = ⟨0, []⟩ := by simp only [routes, routeBlock, hr]
      rw [routes_text_of_none h staged targets (ht ▸ hr), ht, hb, insertAt_nil]
    | some b =>
      have hb : routes = _ := routeBlock_of_some hr hrt
      rw [routes_text h staged targets hs (ht ▸ hr), hb, snippetsOf_route]
      conv => rhs; rw [(Routes.findAnchor_spec hr).1, insertAt_append]
  | some a =>
    have hb : imports = _ := importBlock_of_some ha himp
    have ht := imports_text h staged targets hs ha
    have hta := (Imports.findAnchor_spec ha).1
    rw [snippetsOf_importLine] at ht
    rcases routes_moved (fallbackMarker_ne_nil h) hm ha hi with ⟨hn, hn'⟩ | ⟨b, b', hr, hr', hmoved⟩
    · rw [← hta] at hn
      have hrb : routes = ⟨0, []⟩ := by simp only [routes, routeBlock, hn]
      rw [routes_text_of_none h staged targets (ht ▸ hn'), ht, hrb, insertAt_nil, hb]
      conv => rhs; rw [hta, insertAt_append]
    · rw [← hta] at hr
      have hrb : routes = _ := routeBlock_of_some hr hrt
      rw [routes_text h staged targets hs (ht ▸ hr'), snippetsOf_route, ← Routes.splice_text,
        Routes.splice_moved hmoved, ← hta, hrb, hb]

/-- **The router is only added to.**  A batch inserts its imports where they go in the router as it
was, and its routes where they go in the router as it was, behind the imports if these come first.
Both are those of the processed documents, in the order of the batch. -/
theorem router_insertions (h : ofConfig config = .ok i) (hm : '\n' ∉ config.anchors.fallbackMarker)
    (inputs : List Text) (targets : Targets)
    (hi : ∀ s ∈ (i.filter targets inputs).staged,
      ∀ w ∈ [config.anchors.fallbackMarker, Routes.wildcardPath, Routes.routeOpen],
        contains w (Imports.terminated s.snippets.importLine) = false) :
    let accepted := (i.filter targets inputs).staged
    let imports :=
      importBlock config.anchors targets.router (accepted.map (·.snippets.importLine))
    let routes := routeBlock config.anchors targets.router (accepted.map (·.snippets.route))
    (i.run inputs targets).targets.router =
        insertAt (routes.place + if imports.place ≤ routes.place then imports.text.length else 0)
          routes.text (insertAt imports.place imports.text targets.router) ∧
      accepted.map (·.index) =
        ((i.run inputs targets).records.filter (·.isProcessed)).map (·.index) ∧
      (i.run inputs targets).records.map (·.index) = List.range' 1 inputs.length := by
  intro accepted imports routes
  have hrecords := i.filterFrom_index targets ⟨[], []⟩ 1 inputs rfl
  refine ⟨router_text h hm accepted targets ?_, ?_, ?_⟩
  · intro m hmem
    obtain ⟨s, hs, rfl⟩ := List.mem_map.1 hmem
    exact hi s hs
  · rw [run_filter_isProcessed]
    exact hrecords.2
  · rw [run_map_index]
    exact hrecords.1

theorem router_insertions_bare :
    ∃ accepted, accepted = (standard.filter bare rivals).staged ∧
      let imports := importBlock ({} : Config).anchors bare.router
        (accepted.map (·.snippets.importLine))
      let routes := routeBlock ({} : Config).anchors bare.router
        (accepted.map (·.snippets.route))
      (standard.run rivals bare).targets.router =
        insertAt (routes.place + if imports.place ≤ routes.place then imports.text.length else 0)
          routes.text (insertAt imports.place imports.text bare.router) := by
  have hm : '\n' ∉ ({} : Config).anchors.fallbackMarker := by decide +kernel
  have hi : ∀ s ∈ (standard.filter bare rivals).staged,
      ∀ w ∈ [({} : Config).anchors.fallbackMarker, Routes.wildcardPath, Routes.routeOpen],
        contains w (Imports.terminated s.snippets.importLine) = false := by
    decide +kernel
  obtain ⟨hrouter, _⟩ := router_insertions ofConfig_standard hm rivals bare hi
  exact ⟨_, rfl, hrouter⟩

end Graft.Integrator
