import Graft.Proofs.Batch.Accepted
import Graft.Proofs.Batch.Setup
import Graft.Proofs.Record.Metadata

/-!
# What no two accepted documents share

A document is processed exactly when nothing it shows is there already: neither the targets, as they
were before the batch, nor the routes accepted before it show its paths.

* `accept_iff_admissible`: what is asked of a record to be staged;
* `processed_iff_admissible`: a document is processed exactly when its record is admissible, and so
  no two processed documents have routes with one path;
* `entryPaths_nodup`: nor have they entries with one path, if entries with one path come with routes
  with one path;
* `entry_spliced_twice`: routes alone are compared within a batch, so without that an entry is
  spliced twice.
-/

namespace Graft.Integrator

open Splice Text Metadata DuplicateRule

/-- A record is complete and has a name, and neither the targets nor the routes of the records
`earlier` show its paths. -/
structure Admissible (targets : Targets) (earlier : List Record) (r : Record) : Prop where
  complete : ∀ field, (r.snippets.get field).isSome
  named : r.component.isSome
  /-- The router does not show both the component and the route's path. -/
  router : ¬ ShownIn r targets.router
  /-- The listing does not show the entry's path, with either quote. -/
  listing : ¬ ListedIn r targets.listing
  batch : ∀ q ∈ earlier, ¬ q.ShowsRoute r

/-! ## Processed documents -/

theorem exists_eligible_iff {r : Record} :
    (∃ snippets, Eligible r snippets) ↔
      (∀ field, (r.snippets.get field).isSome) ∧ r.component.isSome := by
  constructor
  · rintro ⟨snippets, he⟩
    obtain ⟨hi, hp, hl⟩ := complete_eq_ok_iff.1 he.complete
    refine ⟨fun field => ?_, he.named⟩
    cases field with
    | importLine => exact Option.isSome_of_eq_some hi
    | route => exact Option.isSome_of_eq_some hp
    | homeCard => exact Option.isSome_of_eq_some hl
  · rintro ⟨hall, hnamed⟩
    obtain ⟨t, hi⟩ := Option.isSome_iff_exists.1 (hall .importLine)
    obtain ⟨p, hp⟩ := Option.isSome_iff_exists.1 (hall .route)
    obtain ⟨e, hl⟩ := Option.isSome_iff_exists.1 (hall .homeCard)
    refine ⟨⟨t, p, e⟩, ?_, complete_eq_ok_iff.2 ⟨hi, hp, hl⟩, hnamed⟩
    simp [Record.hasNoSnippets, Snippets.isEmpty, Snippets.toList, SnippetField.all, hi]

/-- A record whose document is read is processed exactly when it is eligible and no duplicate. -/
theorem report_processed_iff (i : Integrator) {targets : Targets} {staged : List Staged}
    {index : Nat} {input : Text} {r : Record} (h : i.read index input = .ok r) :
    (i.report targets staged index input).status = .processed ↔
      (∃ snippets, Eligible r snippets) ∧
        find? targets (staged.map (·.snippets.route)) r = none := by
  constructor
  · intro hp
    rcases i.step_cases targets staged index input with ⟨r', s, ha⟩ | ⟨hnot, -⟩
    · obtain rfl := Except.ok.inj (h.symm.trans ha.read)
      exact ⟨⟨_, ha.stages.eligible⟩, ha.new⟩
    · rw [RecordReport.isProcessed_iff.2 hp] at hnot
      cases hnot
  · rintro ⟨⟨snippets, he⟩, hnew⟩
    rw [i.report_of_eligible h he, hnew]
    rfl

/-- What is asked of a record to be staged behind the snippets of the records `earlier`. -/
theorem accept_iff_admissible {targets : Targets} {earlier : List Record} {staged : List Staged}
    (h : List.Forall₂ Stages earlier staged) (r : Record) :
    (∃ snippets, Eligible r snippets) ∧ find? targets (staged.map (·.snippets.route)) r = none ↔
      Admissible targets earlier r := by
  have hbatch := stagedAmong_iff h r
  rw [exists_eligible_iff, ← Option.not_isSome_iff_eq_none, isSome_find?_iff, hbatch, not_or,
    not_or]
  constructor
  · rintro ⟨⟨hcomplete, hnamed⟩, hrouter, hlisting, hroutes⟩
    exact ⟨hcomplete, hnamed, hrouter, hlisting, fun q hq hs => hroutes ⟨q, hq, hs⟩⟩
  · intro ha
    refine ⟨⟨ha.complete, ha.named⟩, ha.router, ha.listing, ?_⟩
    rintro ⟨q, hq, hs⟩
    exact ha.batch q hq hs

variable (i : Integrator) (targets : Targets)

/-- A record's route shows its own path. -/
theorem showsRoute_of_routePath {inputs : List Text} {q r : Record} {p : Text}
    (hq : q ∈ i.accepted targets inputs) (hp : q.routePath = some p)
    (hr : r.routePath = some p) : q.ShowsRoute r := by
  obtain ⟨k, input, -, hread, -⟩ := (i.mem_accepted_iff targets).1 hq
  obtain ⟨d, rfl⟩ := i.read_eq_ok hread
  obtain ⟨t, ht, hpath⟩ := Option.bind_eq_some_iff.1 hp
  exact ⟨t, p, ht, hr, (routePath?_spec hpath).2.2⟩

theorem routePaths_nodup (inputs : List Text) :
    ((i.accepted targets inputs).filterMap (·.routePath)).Nodup := by
  rw [List.Nodup, List.pairwise_filterMap]
  refine (i.accepted_pairwise targets inputs).imp_of_mem ?_
  intro q r hq _ hfree p hp p' hp' heq
  subst heq
  exact hfree (i.showsRoute_of_routePath targets hq hp hp')

/-- **A document is processed exactly when nothing it shows is there already.**  A document that can
be read is processed if and only if its record is complete and has a name, the targets do not show
it, and no route that the batch accepted before shows the path of its own.  So no two processed
documents have routes with one path. -/
theorem processed_iff_admissible {inputs : List Text} {k : Nat} {input : Text} {r : Record}
    (h : inputs[k]? = some input) (hr : i.read (k + 1) input = .ok r) :
    ((i.run inputs targets).records[k]?.map (·.status) = some .processed ↔
        Admissible targets ((i.accepted targets inputs).filter (·.index < r.index)) r) ∧
      ((i.accepted targets inputs).filterMap (·.routePath)).Nodup := by
  refine ⟨?_, i.routePaths_nodup targets inputs⟩
  have hreport : (i.run inputs targets).records[k]?.map (·.status) =
      some (i.report targets (i.stagedBefore targets inputs k) (k + 1) input).status := by
    rw [run_records_getElem?, h]
    rfl
  have hearlier : ∀ q, q ∈ i.accepted targets (inputs.take k) ↔
      q ∈ (i.accepted targets inputs).filter (·.index < r.index) := by
    intro q
    rw [mem_accepted_take_iff, List.mem_filter, i.read_index hr, decide_eq_true_iff, Nat.lt_succ_iff]
  rw [hreport, Option.some.injEq, i.report_processed_iff hr]
  refine (accept_iff_admissible (i.stages_accepted targets (inputs.take k)) r).trans ?_
  constructor
  · intro ha
    exact { ha with batch := fun q hq => ha.batch q ((hearlier q).2 hq) }
  · intro ha
    exact { ha with batch := fun q hq => ha.batch q ((hearlier q).1 hq) }

theorem exists_eq_ok {ε α : Type} {x : Except ε α} (h : x.toOption.isSome) : ∃ a, x = .ok a := by
  cases x with
  | error e => cases h
  | ok a => exact ⟨a, rfl⟩

/-- The second of two documents is refused, as the route of the first shows the path of its own. -/
theorem processed_iff_admissible_rivals :
    ∃ input r, rivals[1]? = some input ∧ standard.read 2 input = .ok r ∧
      (((standard.run rivals bare).records[1]?.map (·.status) = some .processed ↔
          Admissible bare ((standard.accepted bare rivals).filter (·.index < r.index)) r) ∧
        ((standard.accepted bare rivals).filterMap (·.routePath)).Nodup) ∧
      ¬ Admissible bare ((standard.accepted bare rivals).filter (·.index < r.index)) r := by
  have hinput : rivals[1]? = some (rivals.getD 1 []) := rfl
  obtain ⟨r, hr⟩ : ∃ r, standard.read 2 (rivals.getD 1 []) = .ok r :=
    exists_eq_ok (by decide +kernel)
  have hboth := processed_iff_admissible standard bare hinput hr
  refine ⟨_, r, hinput, hr, hboth, fun ha => ?_⟩
  have hstatus : (standard.run rivals bare).records[1]?.map (·.status) =
      some (.skipped (.duplicate .stagedInBatch)) := by decide +kernel
  have hprocessed := hboth.1.2 ha
  rw [hstatus] at hprocessed
  cases hprocessed

/-! ## Entries -/

/-- The records of the documents of a batch that can be read. -/
def readable (inputs : List Text) : List Record :=
  (inputs.zipIdx 1).filterMap fun p => (i.read p.2 p.1).toOption

/-- Documents whose entries have one path have routes with one path. -/
def EntriesFollowRoutes (inputs : List Text) : Prop :=
  ∀ q ∈ i.readable inputs, ∀ r ∈ i.readable inputs, q.index ≠ r.index →
    q.entryPath.isSome → q.entryPath = r.entryPath →
      q.routePath.isSome ∧ q.routePath = r.routePath

instance (inputs : List Text) : Decidable (i.EntriesFollowRoutes inputs) :=
  inferInstanceAs (Decidable (∀ q ∈ i.readable inputs, ∀ r ∈ i.readable inputs, q.index ≠ r.index →
    q.entryPath.isSome → q.entryPath = r.entryPath →
      q.routePath.isSome ∧ q.routePath = r.routePath))

theorem mem_readable_of_accepted {inputs : List Text} {r : Record}
    (h : r ∈ i.accepted targets inputs) : r ∈ i.readable inputs := by
  obtain ⟨k, input, hinput, hread, -⟩ := (i.mem_accepted_iff targets).1 h
  refine List.mem_filterMap.2 ⟨(input, k + 1), ?_, ?_⟩
  · refine List.mem_iff_getElem?.2 ⟨k, ?_⟩
    rw [List.getElem?_zipIdx, hinput, Nat.add_comm]
    rfl
  · rw [hread]
    rfl

/-- **No two accepted documents have entries with one path, if such entries come with routes that
have one path.**  Within a batch it is routes that are compared, so it is by its route that the
second of two such documents is refused. -/
theorem entryPaths_nodup {inputs : List Text} (h : i.EntriesFollowRoutes inputs) :
    ((i.accepted targets inputs).filterMap (·.entryPath)).Nodup := by
  have hpairs := (i.accepted_index targets inputs).and (i.accepted_pairwise targets inputs)
  rw [List.Nodup, List.pairwise_filterMap]
  refine hpairs.imp_of_mem ?_
  rintro q r hq hr ⟨hlt, hfree⟩ e he e' he' heq
  subst heq
  obtain ⟨hsome, hsame⟩ := h q (i.mem_readable_of_accepted targets hq) r
    (i.mem_readable_of_accepted targets hr) (Nat.ne_of_lt hlt) (Option.isSome_of_eq_some he)
    (he.trans he'.symm)
  obtain ⟨p, hp⟩ := Option.isSome_iff_exists.1 hsome
  exact hfree (i.showsRoute_of_routePath targets hq hp (hsame ▸ hp))

/-- Two documents whose entries have one path, and whose routes have the given paths. -/
def sharers (first second : Text) : List Text :=
  [documentOf "import A from '@modules/a'".toList
      ("<Route ".toList ++ routeAttribute first ++ " />".toList)
      "\x7b path: '/x', icon: Anchor \x7d".toList,
    documentOf "import B from '@modules/b'".toList
      ("<Route ".toList ++ routeAttribute second ++ " />".toList)
      "\x7b path: '/x', icon: Bell \x7d".toList]

theorem entryPaths_nodup_sharers :
    standard.EntriesFollowRoutes (sharers "/a".toList "/a".toList) ∧
      ((standard.accepted bare (sharers "/a".toList "/a".toList)).filterMap (·.entryPath)).Nodup := by
  have h : standard.EntriesFollowRoutes (sharers "/a".toList "/a".toList) := by decide +kernel
  exact ⟨h, entryPaths_nodup standard bare h⟩

/-- Two documents whose entries have one path are both processed if their routes have two, and the
listing then shows that path twice. -/
theorem entry_spliced_twice :
    let result := standard.run (sharers "/a".toList "/b".toList) bare
    result.records.map (·.status) = [.processed, .processed] ∧
      (standard.accepted bare (sharers "/a".toList "/b".toList)).map (·.entryPath) =
        [some "/x".toList, some "/x".toList] ∧
      result.fullySpliced ∧ count "path: '/x'".toList result.targets.listing = 2 := by
  decide +kernel

end Graft.Integrator
