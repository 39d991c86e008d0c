import Graft.Proofs.Batch.Duplicate
import Graft.Proofs.Batch.Router
import Graft.Proofs.Splice.Keys
import Graft.Proofs.Splice.Listing

/-!
# Running a batch again

* `rerun_processed`: a document whose snippets went into the router is a duplicate when the batch is
  run again on what it left;
* `rerun_refused`: a document that a target refused is refused again, and one that another document
  of the batch refused is refused again exactly when the new targets show it, too.
-/

namespace Graft.Integrator

open Splice Text Metadata DuplicateRule

variable {config : Config} {i : Integrator}

theorem identifier_uncut {s : AnchorSettings} (hne : s.fallbackMarker ≠ [])
    (hs : ∀ c, s.fallbackMarker.head? = some c → isIdentRest c = false) {w : Text}
    (hw : Identifier w) : Routes.Uncut s w := by
  refine Routes.uncut_of_head hne fun c hc => ⟨fun hm => ?_, fun ho => ?_⟩
  · have hident := hw.rest c (List.mem_of_mem_tail hc)
    rw [hs c hm] at hident
    cases hident
  · have hhead : Routes.routeOpen.head? = some '<' := by decide +kernel
    obtain rfl := Option.some.inj (hhead.symm.trans ho)
    exact absurd (hw.rest _ (List.mem_of_mem_tail hc)) (by decide)

/-- What a run says about an eligible record. -/
theorem rule?_run (targets : Targets) {inputs : List Text} {k : Nat} {input : Text} {r : Record}
    {snippets : CompleteSnippets} (hin : inputs[k]? = some input)
    (hread : i.read (k + 1) input = .ok r) (he : Eligible r snippets) :
    ∃ again, (i.run inputs targets).records[k]? = some again ∧
      again.rule? =
        find? targets ((i.stagedBefore targets inputs k).map (·.snippets.route)) r := by
  refine ⟨_, by rw [run_records_getElem?, hin, Option.map_some], ?_⟩
  rw [i.report_of_eligible hread he]
  cases find? targets ((i.stagedBefore targets inputs k).map (·.snippets.route)) r <;> rfl

/-! ## Documents that were processed -/

/-- **A document whose snippets went into the router is a duplicate when the batch is run again.**
The name of its component is on a line of its own import, which no route is spliced into, and
re-indenting its route keeps the path. -/
theorem rerun_processed (h : ofConfig config = .ok i)
    (hm : ∀ c, config.anchors.fallbackMarker.head? = some c → isIdentRest c = false)
    {inputs : List Text} {targets : Targets} {k : Nat} {report : RecordReport}
    (hk : (i.run inputs targets).records[k]? = some report) (hp : report.status = .processed)
    (himport : .importLine ∉ report.unspliced) (hroute : .route ∉ report.unspliced)
    {path : Text} (hpath : report.path = some path) (hline : '\n' ∉ path) :
    ∃ again, (i.run inputs (i.run inputs targets).targets).records[k]? = some again ∧
      again.status = .skipped (.duplicate .inRouter) := by
  rw [run_records_getElem?] at hk
  obtain ⟨input, hin, rfl⟩ := Option.map_eq_some_iff.1 hk
  obtain ⟨r, snippets, hread, he, hrep, hadm⟩ := i.report_processed hp
  rw [hrep] at himport hroute hpath
  replace hpath : r.routePath = some path := hpath
  have hmem : (⟨r.index, snippets, r.icon⟩ : Staged) ∈ (i.filter targets inputs).staged :=
    i.admitted_subset_staged targets hin (by rw [hadm]; exact List.mem_singleton.2 rfl)
  have hd := i.derived_of_read hread he.complete
  -- both of its splices found an anchor
  obtain ⟨a, ha⟩ := i.findAnchor_of_notMem_unspliced _ targets hmem rfl rfl himport
  obtain ⟨b, hb⟩ := i.findAnchor_of_notMem_unspliced _ targets hmem rfl rfl hroute
  rw [importStrategy h] at ha
  rw [routeStrategy h] at hb
  obtain ⟨name, hname⟩ := Option.isSome_iff_exists.1 he.named
  obtain ⟨hid, hnameIn⟩ := component?_spec (hd.component.symm.trans hname)
  obtain ⟨_, _, hpathIn⟩ := routePath?_spec (hd.routePath.symm.trans hpath)
  have hshown : ShownIn r (i.run inputs targets).targets.router := by
    refine ⟨⟨name, hname, ?_⟩, ⟨path, hpath, ?_⟩⟩
    · refine contains_routes_text h _ targets hid.solid.oneLine
        (identifier_uncut (fallbackMarker_ne_nil h) hm hid) ?_
      exact contains_staged_import h _ targets hmem ha hid.solid hnameIn
    · exact contains_staged_route h _ targets hmem hb (solid_routeAttribute hline) hpathIn
  obtain ⟨again, hagain, hrule⟩ := rule?_run (i.run inputs targets).targets hin hread he
  rw [find?_of_shownIn hshown] at hrule
  exact ⟨again, hagain, RecordReport.rule?_eq_some_iff.1 hrule⟩

theorem rerun_processed_rivals :
    ∃ report again, (standard.run rivals bare).records[0]? = some report ∧
      report.status = .processed ∧ report.path = some ['/', 'a'] ∧
      (standard.run rivals (standard.run rivals bare).targets).records[0]? = some again ∧
      again.status = .skipped (.duplicate .inRouter) := by
  have hfirst : ((standard.run rivals bare).records[0]?.map fun r =>
      (r.status, r.path, r.unspliced)) = some (.processed, some ['/', 'a'], []) := by
    decide +kernel
  obtain ⟨report, hk, he⟩ := Option.map_eq_some_iff.1 hfirst
  obtain ⟨hp, hpath, hspliced⟩ : report.status = .processed ∧ report.path = some ['/', 'a'] ∧
      report.unspliced = [] := by
    simpa using he
  obtain ⟨again, hagain, hstatus⟩ := rerun_processed ofConfig_standard fallbackMarker_head hk hp
    (by simp [hspliced]) (by simp [hspliced]) hpath (by decide)
  exact ⟨report, again, hk, hp, hpath, hagain, hstatus⟩

/-! ## What the new targets still show -/

/-- The path is on one line, and no part of it can be taken for a place for routes. -/
structure RouteSound (path : Text) : Prop where
  oneLine : '\n' ∉ path
  marker : contains ({} : AnchorSettings).fallbackMarker path = false
  element : contains Routes.routeOpen path = false

/-- The attribute of a sound path is not cut where routes go. -/
theorem RouteSound.uncut {path : Text} (h : RouteSound path) :
    Routes.Uncut {} (routeAttribute path) := by
  have hfacts : ∀ o, o = ({} : AnchorSettings).fallbackMarker ∨ o = Routes.routeOpen →
      '"' ∉ o ∧ o ≠ [] ∧ contains o ['p', 'a', 't', 'h', '='] = false ∧
        contains o path = false := by
    rintro o (rfl | rfl)
    · exact ⟨by decide +kernel, by decide +kernel, by decide +kernel, h.marker⟩
    · exact ⟨by decide +kernel, by decide +kernel, by decide +kernel, h.element⟩
  intro o ho u v _ hv hw
  obtain ⟨hquote, hne, hfront, hpath⟩ := hfacts o ho
  have hattr : u ++ v = ['p', 'a', 't', 'h', '='] ++ ['"'] ++ (path ++ ['"'] ++ []) := by
    rw [← hw, routeAttribute_eq]
    simp
  constructor
  · intro hp
    rcases List.eq_nil_or_concat v with rfl | ⟨v, c, rfl⟩
    · exact hv rfl
    · have hlast : u ++ v ++ [c] = ['p', 'a', 't', 'h', '=', '"'] ++ path ++ ['"'] := by
        simpa using hattr
      obtain ⟨_, hc⟩ := List.append_inj' hlast rfl
      obtain rfl := (List.cons.inj hc).1
      exact hquote (hp.subset (by simp))
  · intro hp
    have hin : contains o (u ++ v) := contains_append_right u (contains_iff_isInfix.2 hp.isInfix)
    rw [hattr, contains_separated_iff hquote hne, contains_separated_iff hquote hne, hfront, hpath]
      at hin
    simp only [Bool.false_eq_true, false_or, contains_iff_isInfix, List.infix_nil] at hin
    exact hne hin

section
variable (h : ofConfig {} = .ok i) (staged : List Staged) (targets : Targets)
include h

theorem contains_router {w : Text} (hw : '\n' ∉ w) (hcut : Routes.Uncut {} w)
    (hc : contains w targets.router) : contains w (i.patchAll staged targets).targets.router :=
  contains_routes_text h staged targets hw hcut (contains_imports_text h staged targets hw hc)

/-- A key of a sound path stays in the listing. -/
theorem contains_listing {path key : Text} (hk : IsKey path key) (hu : ∀ c ∈ path, ¬ IsMark c)
    (hp : EntrySound path) (hc : contains key targets.listing) :
    contains key (i.patchAll staged targets).targets.listing := by
  have hicons : contains key (i.textBefore staged targets .listEntry) := by
    change contains key (i.insertionOf staged targets .icon).text
    rcases i.insertionOf_text_cases staged targets .icon with ht | ⟨a, ha, ht⟩
    · exact ht ▸ hc
    · rw [iconStrategy h] at ha ht
      rw [ht]
      exact contains_key_icons ha hk hu hp hc _
  rw [patchAll_eq]
  rcases i.insertionOf_text_cases staged targets .listEntry with ht | ⟨a, ha, ht⟩
  · exact ht ▸ hicons
  · rw [entryStrategy h] at ha ht
    dsimp only
    rw [ht]
    exact contains_key_entries plain_default.name plain_default.type ha hk hp hicons _

/-- A record of a sound path that the router shows is still shown. -/
theorem shownIn_router {r : Record} (hs : ShownIn r targets.router)
    (hid : ∀ name, r.component = some name → Identifier name)
    (hp : ∀ path, r.routePath = some path → RouteSound path) :
    ShownIn r (i.patchAll staged targets).targets.router := by
  obtain ⟨⟨name, hname, hnameIn⟩, path, hpath, hpathIn⟩ := hs
  have hident := hid name hname
  have hsound := hp path hpath
  have huncut : Routes.Uncut {} name :=
    identifier_uncut (by decide +kernel) fallbackMarker_head hident
  have hline := (solid_routeAttribute hsound.oneLine).oneLine
  exact ⟨⟨name, hname, contains_router h staged targets hident.solid.oneLine huncut hnameIn⟩,
    path, hpath, contains_router h staged targets hline hsound.uncut hpathIn⟩

/-- A record of a sound path that the listing shows is still shown. -/
theorem listedIn_listing {r : Record} (hl : ListedIn r targets.listing)
    (hu : ∀ path, r.entryPath = some path → ∀ c ∈ path, ¬ IsMark c)
    (hp : ∀ path, r.entryPath = some path → EntrySound path) :
    ListedIn r (i.patchAll staged targets).targets.listing := by
  obtain ⟨path, hpath, key, hkey, hkeyIn⟩ := hl
  have hk : IsKey path key := isKey_of_mem_entryKeys hkey
  exact ⟨path, hpath, key, hkey,
    contains_listing h staged targets hk (hu path hpath) (hp path hpath) hkeyIn⟩

end

/-! ## Documents that were refused -/

/-- **A document that a target refused is refused again.**  This holds of every path that is not cut
when snippets are spliced into that target.  A document that was refused because an earlier one of
the batch has its route's path is refused again exactly when the new targets show its component or
its entry, or a route that is staged again before it shows its path. -/
theorem rerun_refused (h : ofConfig {} = .ok i) {inputs : List Text} {targets : Targets}
    (hf : (i.run inputs targets).fullySpliced) {k : Nat} {report : RecordReport}
    {rule : DuplicateRule} (hk : (i.run inputs targets).records[k]? = some report)
    (hrule : report.rule? = some rule) :
    ∃ input r again, inputs[k]? = some input ∧ i.read (k + 1) input = .ok r ∧
      (i.run inputs (i.run inputs targets).targets).records[k]? = some again ∧
      match rule with
      | .inRouter =>
        ∃ path, r.routePath = some path ∧ (RouteSound path → again.rule? = some .inRouter)
      | .inListing => ∃ path, r.entryPath = some path ∧ (EntrySound path → again.rule?.isSome)
      | .stagedInBatch =>
        ∃ path, r.routePath = some path ∧ ('\n' ∉ path →
          (again.rule?.isSome ↔
            (∃ name, r.component = some name ∧
              contains name (i.run inputs targets).targets.router) ∨
            ListedIn r (i.run inputs targets).targets.listing ∨
            StagedAmong r ((i.stagedBefore (i.run inputs targets).targets inputs k).map
              (·.snippets.route)))) := by
  rw [run_records_getElem?] at hk
  obtain ⟨input, hin, rfl⟩ := Option.map_eq_some_iff.1 hk
  have hstatus : (i.report targets (i.stagedBefore targets inputs k) (k + 1) input).status =
      .skipped (.duplicate rule) :=
    RecordReport.rule?_eq_some_iff.1 hrule
  obtain ⟨r, snippets, hread, he, hfind⟩ := i.report_duplicate hstatus
  have hd := i.derived_of_read hread he.complete
  have hmatch := List.find?_some hfind
  obtain ⟨again, hagain, heq⟩ := rule?_run (i.run inputs targets).targets hin hread he
  refine ⟨input, r, again, hin, hread, hagain, ?_⟩
  rw [heq]
  cases rule with
  | inRouter =>
    have hshown := matches?_inRouter_iff.1 hmatch
    obtain ⟨path, hpath, _⟩ := hshown.path
    refine ⟨path, hpath, fun hp => find?_of_shownIn ?_ _⟩
    refine shownIn_router h _ targets hshown ?_ ?_
    · intro name hname
      exact (component?_spec (hd.component.symm.trans hname)).1
    · intro path' hpath'
      exact Option.some.inj (hpath.symm.trans hpath') ▸ hp
  | inListing =>
    have hlisted := matches?_inListing_iff.1 hmatch
    obtain ⟨path, hpath⟩ : ∃ path, r.entryPath = some path := Exists.imp (fun _ => And.left) hlisted
    refine ⟨path, hpath, fun hp => isSome_find?_iff.2 (.inr (.inl ?_))⟩
    refine listedIn_listing h _ targets hlisted ?_ ?_
    · intro path' hpath' c hc hm
      obtain ⟨_, hdouble, hsingle⟩ := entryPath?_spec (hd.entryPath.symm.trans hpath')
      rcases hm with rfl | rfl
      · exact hdouble hc
      · exact hsingle hc
    · intro path' hpath'
      exact Option.some.inj (hpath.symm.trans hpath') ▸ hp
  | stagedInBatch =>
    obtain ⟨path, hpath, t, ht, htIn⟩ := matches?_stagedInBatch_iff.1 hmatch
    refine ⟨path, hpath, fun hline => ?_⟩
    obtain ⟨s, hs, rfl⟩ := List.mem_map.1 ht
    have hmem := i.stagedBefore_subset targets inputs k hs
    have hne : snippetsOf (i.filter targets inputs).staged .route ≠ [] :=
      List.ne_nil_of_mem (mem_snippetsOf hmem rfl)
    obtain ⟨a, ha⟩ := (i.fullySpliced_iff targets inputs).1 hf .route hne
    rw [routeStrategy h] at ha
    have hshown := contains_staged_route h _ targets hmem ha (solid_routeAttribute hline) htIn
    rw [isSome_find?_iff]
    exact or_congr_left ⟨fun hs => hs.component, fun hc => ⟨hc, path, hpath, hshown⟩⟩

/-- A router that shows the first of the rivals already, without having its route. -/
def taken : Targets := ⟨"path=\"/a\" A\n".toList ++ bare.router, bare.listing⟩

theorem rerun_refused_taken :
    (standard.run rivals taken).fullySpliced ∧
      ∃ report again, (standard.run rivals taken).records[0]? = some report ∧
        report.rule? = some .inRouter ∧ RouteSound ['/', 'a'] ∧
        (standard.run rivals (standard.run rivals taken).targets).records[0]? = some again ∧
        again.rule? = some .inRouter := by
  have hf : (standard.run rivals taken).fullySpliced := by decide +kernel
  have hfirst : (standard.run rivals taken).records[0]?.map (·.rule?) = some (some .inRouter) := by
    decide +kernel
  obtain ⟨report, hk, hrule⟩ := Option.map_eq_some_iff.1 hfirst
  obtain ⟨input, r, again, hin, hread, hagain, path, hpath, hrefused⟩ :=
    rerun_refused ofConfig_standard hf hk hrule
  have hslash : (rivals[0]?.bind fun input => (standard.read 1 input).toOption.bind (·.routePath)) =
      some ['/', 'a'] := by
    decide +kernel
  rw [hin, Option.bind_some, hread] at hslash
  obtain rfl : path = ['/', 'a'] := Option.some.inj (hpath.symm.trans hslash)
  have hsound : RouteSound ['/', 'a'] :=
    ⟨by decide +kernel, by decide +kernel, by decide +kernel⟩
  exact ⟨hf, report, again, hk, hrule, hsound, hagain, hrefused hsound⟩

/-- Two documents with one route path, of which the first run takes the one and the second run the
other. -/
theorem refused_then_processed :
    (standard.run rivals bare).fullySpliced ∧
      (standard.run rivals bare).records.map (·.status) =
        [.processed, .skipped (.duplicate .stagedInBatch)] ∧
      (standard.run rivals (standard.run rivals bare).targets).records.map (·.status) =
        [.skipped (.duplicate .inRouter), .processed] := by
  decide +kernel

end Graft.Integrator
