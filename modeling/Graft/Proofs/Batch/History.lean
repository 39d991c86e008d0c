import Graft.Proofs.Batch.Router
import Graft.Proofs.Splice.Listing

/-!
# Histories of batches

Batches that are run one after the other, each on the texts that the one before it left.

* `ready_run`: a batch over targets that are ready finds every anchor and leaves them ready;
* `history_fullySpliced`: so does a whole history, however long.
-/

namespace Graft.Integrator

open Splice Text

/-- The results of some batches, each run on the targets that the one before it left. -/
def history (i : Integrator) (targets : Targets) : List (List Text) → List BatchResult
  | [] => []
  | inputs :: batches =>
    i.run inputs targets :: i.history (i.run inputs targets).targets batches

/-- The router has both marker comments, and the listing an import of icons before the array. -/
structure Ready (s : AnchorSettings) (targets : Targets) : Prop where
  importsMarker : contains s.importsMarker targets.router
  fallbackMarker : contains s.fallbackMarker targets.router
  listing : ListingReady s targets.listing

instance (s : AnchorSettings) (targets : Targets) : Decidable (Ready s targets) :=
  decidable_of_iff
    (contains s.importsMarker targets.router ∧ contains s.fallbackMarker targets.router ∧
      ListingReady s targets.listing)
    ⟨fun h => ⟨h.1, h.2.1, h.2.2⟩, fun h => ⟨h.importsMarker, h.fallbackMarker, h.listing⟩⟩

section
variable {config : Config} {i : Integrator} (h : ofConfig config = .ok i)
  (hd : config.anchors = {}) (staged : List Staged) (targets : Targets)
include h hd

/-! ## The router -/

theorem exists_importAnchor (hr : Ready {} targets) :
    ∃ a, (i.strategy .importLine).findAnchor (i.textBefore staged targets .importLine) =
      some a := by
  rw [importStrategy h, hd]
  exact Imports.findAnchor_isSome_of_marker (by decide +kernel) hr.importsMarker

theorem exists_routeAnchor (hr : Ready {} targets) :
    ∃ a, (i.strategy .route).findAnchor (i.textBefore staged targets .route) = some a := by
  rw [routeStrategy h, hd]
  refine Routes.findAnchor_isSome_of_marker ?_
  exact contains_imports_text h staged targets (by decide +kernel) hr.fallbackMarker

/-- A marker comment stays in the router. -/
theorem contains_marker {w : Text} (hw : '\n' ∉ w) (hcut : Routes.Uncut {} w)
    (hc : contains w targets.router) : contains w (i.patchAll staged targets).targets.router := by
  refine contains_routes_text h staged targets hw (hd ▸ hcut) ?_
  exact contains_imports_text h staged targets hw hc

/-! ## The listing -/

/-- Icons find their place in a listing that is ready, and leave it ready. -/
theorem icons_ready (hr : Ready {} targets)
    (hicons : ∀ icon ∈ snippetsOf staged .icon, '[' ∉ icon ∧ '\x7d' ∉ icon) :
    (∃ a, (i.strategy .icon).findAnchor (i.textBefore staged targets .icon) = some a) ∧
      ListingReady {} (i.textBefore staged targets .listEntry) := by
  obtain ⟨front, head, names, tail, rest, hl, ht⟩ := hr.listing.exists_listing plain_default
  obtain ⟨a, names', ha, hsplice, hl'⟩ := hl.merge plain_default hicons
  rw [← ht] at ha
  have hfind : (i.strategy .icon).findAnchor (i.textBefore staged targets .icon) = some a := by
    rw [iconStrategy h, hd]
    exact ha
  refine ⟨⟨a, hfind⟩, ?_⟩
  change ListingReady {} (i.insertionOf staged targets .icon).text
  rcases i.insertionOf_text_cases staged targets .icon with hsame | ⟨a', ha', htext⟩
  · rw [hsame]
    exact hr.listing
  · obtain rfl := Option.some.inj (hfind.symm.trans ha')
    rw [htext, iconStrategy h]
    exact hsplice ▸ hl'.ready plain_default

/-- Entries find their place in a listing that is ready, and leave it ready. -/
theorem entries_ready (hr : ListingReady {} (i.textBefore staged targets .listEntry)) :
    (∃ a, (i.strategy .listEntry).findAnchor (i.textBefore staged targets .listEntry) = some a) ∧
      ListingReady {} (i.patchAll staged targets).targets.listing := by
  obtain ⟨front, head, names, tail, rest, hl, ht⟩ := hr.exists_listing plain_default
  obtain ⟨a, rest', ha, hsplice, hl'⟩ := hl.extend plain_default (snippetsOf staged .listEntry)
  rw [← ht] at ha
  have hfind : (i.strategy .listEntry).findAnchor (i.textBefore staged targets .listEntry) =
      some a := by
    rw [entryStrategy h, hd]
    exact ha
  refine ⟨⟨a, hfind⟩, ?_⟩
  rw [patchAll_eq]
  dsimp only
  rcases i.insertionOf_text_cases staged targets .listEntry with hsame | ⟨a', ha', htext⟩
  · rw [hsame]
    exact hr
  · obtain rfl := Option.some.inj (hfind.symm.trans ha')
    rw [htext, entryStrategy h]
    exact hsplice ▸ hl'.ready plain_default

end

/-- The icons that are staged are identifiers. -/
theorem identifier_staged_icon (i : Integrator) (inputs : List Text) (targets : Targets)
    {icon : Text} (h : icon ∈ snippetsOf (i.filter targets inputs).staged .icon) :
    Identifier icon := by
  rw [snippetsOf_eq] at h
  obtain ⟨s, hs, hicon⟩ := List.mem_filterMap.1 h
  replace hicon : s.icon = some icon := hicon
  rcases i.mem_staged_filterFrom targets hs with hs | ⟨index, input, r, hread, he, hr⟩
  · cases hs
  · have hd := i.derived_of_read hread he.complete
    exact Metadata.icon?_identifier (hd.icon.symm.trans (hr.symm.trans hicon))

/-- No bracket and no brace is in an icon that is staged. -/
theorem notMem_staged_icon (i : Integrator) (inputs : List Text) (targets : Targets) {icon : Text}
    (h : icon ∈ snippetsOf (i.filter targets inputs).staged .icon) :
    '[' ∉ icon ∧ '\x7d' ∉ icon := by
  have hid := i.identifier_staged_icon inputs targets h
  exact ⟨fun hm => absurd (hid.rest _ hm) (by decide),
    fun hm => absurd (hid.rest _ hm) (by decide)⟩

/-! ## Runs -/

variable {config : Config} {i : Integrator}

/-- A batch over targets that are ready finds every anchor and leaves them ready. -/
theorem ready_run (h : ofConfig config = .ok i) (hd : config.anchors = {}) (inputs : List Text)
    {targets : Targets} (hr : Ready {} targets) :
    (i.run inputs targets).fullySpliced ∧
      (∀ r ∈ (i.run inputs targets).records, r.unspliced = []) ∧
      Ready {} (i.run inputs targets).targets := by
  have hicons := icons_ready h hd (i.filter targets inputs).staged targets hr
    fun _ => i.notMem_staged_icon inputs targets
  have hentries := entries_ready h hd (i.filter targets inputs).staged targets hicons.2
  have hfound : ∀ k, ∃ a, (i.strategy k).findAnchor
      (i.textBefore (i.filter targets inputs).staged targets k) = some a := by
    intro k
    cases k with
    | importLine => exact exists_importAnchor h hd _ targets hr
    | route => exact exists_routeAnchor h hd _ targets hr
    | icon => exact hicons.1
    | listEntry => exact hentries.1
  refine ⟨(i.fullySpliced_iff targets inputs).2 fun k _ => hfound k, ?_, ?_, ?_, hentries.2⟩
  · intro r hmem
    obtain ⟨r', _, rfl⟩ := List.mem_map.1 hmem
    refine List.eq_nil_iff_forall_not_mem.2 fun k hk => ?_
    obtain ⟨hm, _⟩ := (i.mem_unspliced_iff _ targets).1 hk
    obtain ⟨_, hnone⟩ := (i.isAnchorMissing_insertionOf _ targets k).1 hm
    obtain ⟨a, ha⟩ := hfound k
    rw [hnone] at ha
    cases ha
  · refine contains_marker h hd _ targets (by decide +kernel) ?_ hr.importsMarker
    exact Routes.uncut_of_head (by decide +kernel) (Text.forall_mem_of_all (by decide +kernel))
  · refine contains_marker h hd _ targets (by decide +kernel) ?_ hr.fallbackMarker
    exact Routes.uncut_of_head (by decide +kernel) (Text.forall_mem_of_all (by decide +kernel))

/-- **Anchors outlive whole histories.**  Every batch of a history over targets that are ready is
fully spliced and leaves them ready for the next. -/
theorem history_fullySpliced (hd : config.anchors = {}) :
    ∃ i, ofConfig config = .ok i ∧ ∀ targets, Ready {} targets → ∀ batches,
      ∀ result ∈ i.history targets batches,
        result.fullySpliced ∧ (∀ r ∈ result.records, r.unspliced = []) ∧
          Ready {} result.targets := by
  obtain ⟨i, h⟩ := exists_ofConfig hd
  refine ⟨i, h, fun targets hr batches => ?_⟩
  induction batches generalizing targets with
  | nil =>
    intro result hmem
    cases hmem
  | cons inputs batches ih =>
    intro result hmem
    have hrun := ready_run h hd inputs hr
    rcases List.mem_cons.1 hmem with rfl | hmem
    · exact hrun
    · exact ih _ hrun.2.2 result hmem

theorem history_fullySpliced_bare :
    Ready {} bare ∧ ∃ i, ofConfig {} = .ok i ∧
      ∀ result ∈ i.history bare [rivals, rivals.reverse],
        result.fullySpliced ∧ (∀ r ∈ result.records, r.unspliced = []) ∧
          Ready {} result.targets := by
  have hready : Ready {} bare := by decide +kernel
  obtain ⟨i, h, hall⟩ := @history_fullySpliced {} rfl
  exact ⟨hready, i, h, hall bare hready [rivals, rivals.reverse]⟩

end Graft.Integrator
