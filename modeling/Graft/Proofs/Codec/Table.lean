import Graft.Codec.Config
import Graft.Proofs.Fallible

/-!
# Tables in part, and with keys of their own

A table is read member by member.

* `find?_key`: what is found under a key of its own;
* `Json.asTable_keeping_cons`: what one member does to a table, kept or left out;
* `Json.asTable_error_of_unknown`, `Json.asTable_error_of_put`: a member that cannot be read spoils
  the table, wherever it stands;
* `Config.decode_partial`: a configuration of which some keys are left out has the defaults there;
* `Config.decode_hasUnknownKey`: a configuration with a key that is not known is refused.
-/

namespace Graft

open Splice (AnchorSettings Setting)

/-- What has a key that nothing else has is what is found under it. -/
theorem find?_key {ι : Type} {all : List ι} {key : ι → String} (hkeys : (all.map key).Nodup) {i : ι}
    (hi : i ∈ all) : (all.find? fun j => key j == key i) = some i := by
  induction all with
  | nil => cases hi
  | cons j js ih =>
    obtain ⟨hj, hjs⟩ := List.nodup_cons.1 hkeys
    rcases List.mem_cons.1 hi with rfl | hi
    · exact List.find?_cons_of_pos (by simp)
    · have hne : key j ≠ key i := fun h => hj (h ▸ List.mem_map_of_mem hi)
      rw [List.find?_cons_of_neg (by simpa using hne), ih hjs hi]

namespace Json

/-- The object without the members whose keys are not kept. -/
def keeping (keep : String → Bool) : Json → Json
  | .object members => .object (members.filter fun m => keep m.1)
  | v => v

/-- The object with what stands under a key changed. -/
def changing (key : String) (f : Json → Json) : Json → Json
  | .object members => .object (members.map fun m => if m.1 = key then (m.1, f m.2) else m)
  | v => v

theorem keeping_all (v : Json) : v.keeping (fun _ => true) = v := by
  cases v with
  | object members => exact congrArg Json.object (List.filter_eq_self.2 fun _ _ => rfl)
  | _ => rfl

section Table

variable {α : Type} {surplus : Surplus} {keys : List (TableKey α)} {a b : α} {key : String}
  {v : Json} {members : List (String × Json)} {k : TableKey α}

theorem asTable_cons_of_find (hk : (keys.find? fun k => k.key == key) = some k) :
    asTable surplus keys a (.object ((key, v) :: members)) =
      k.put a v >>= fun b => asTable surplus keys b (.object members) := by
  simp only [asTable, List.foldlM_cons, hk]

/-- A member that is kept is put into the table; one that is left out leaves the table alone. -/
theorem asTable_keeping_cons {keep : String → Bool}
    (hk : (keys.find? fun k => k.key == key) = some k) (hput : k.put a v = .ok b) :
    asTable surplus keys a (keeping keep (.object ((key, v) :: members))) =
      asTable surplus keys (if keep key then b else a) (keeping keep (.object members)) := by
  cases hkeep : keep key with
  | true =>
    have hcons : keeping keep (.object ((key, v) :: members)) =
        .object ((key, v) :: members.filter fun m => keep m.1) :=
      congrArg Json.object (List.filter_cons_of_pos hkeep)
    rw [hcons, asTable_cons_of_find hk, hput]
    rfl
  | false =>
    have hcons : keeping keep (.object ((key, v) :: members)) = keeping keep (.object members) :=
      congrArg Json.object (List.filter_cons_of_neg (by simp [hkeep]))
    rw [hcons]
    rfl

/-- A key that is not among those of the table spoils it. -/
theorem asTable_error_of_unknown (hm : (key, v) ∈ members) (hk : key ∉ keys.map TableKey.key) :
    ∃ e, asTable surplus keys a (.object members) = .error e := by
  have hnone : (keys.find? fun k => k.key == key) = none := by
    refine List.find?_eq_none.2 fun k hmem hkey => hk ?_
    rw [← beq_iff_eq.1 hkey]
    exact List.mem_map_of_mem hmem
  simp only [asTable]
  apply foldlM_error_of_mem hm
  intro a
  exact ⟨.unknownKey key (keys.map TableKey.key), by simp only [hnone]⟩

/-- A value that cannot be put under its key spoils the table. -/
theorem asTable_error_of_put (hm : (key, v) ∈ members)
    (hk : (keys.find? fun k => k.key == key) = some k) (hput : ∀ a, ∃ e, k.put a v = .error e) :
    ∃ e, asTable surplus keys a (.object members) = .error e := by
  simp only [asTable]
  apply foldlM_error_of_mem hm
  intro a
  simp only [hk]
  exact hput a

end Table

end Json

/-! ## The tables of a configuration -/

namespace Splice.AnchorSettings

theorem find?_tableKey (k : Setting) :
    ((Setting.all.map tableKey).find? fun t => t.key == k.key) = some (tableKey k) := by
  have hkeys : (Setting.all.map Setting.key).Nodup := by decide
  have hall : k ∈ Setting.all := by cases k <;> decide
  rw [List.find?_map]
  exact congrArg (Option.map tableKey) (find?_key hkeys hall)

theorem mem_all (k : Setting) : k ∈ Setting.all := by
  cases k <;> decide

/-- The settings that a table lists are put in, those that it leaves out stay. -/
theorem asTable_keeping (surplus : Surplus) (keep : String → Bool) (s : AnchorSettings)
    (ks : List Setting) (a : AnchorSettings) :
    ∃ d, Json.asTable surplus (Setting.all.map tableKey) a
        (Json.keeping keep (.object (ks.map fun k => (k.key, .string (s.get k))))) = .ok d ∧
      ∀ k, d.get k = if k ∈ ks ∧ keep k.key then s.get k else a.get k := by
  induction ks generalizing a with
  | nil => exact ⟨a, rfl, fun k => by simp⟩
  | cons j ks ih =>
    have hput : (tableKey j).put a (.string (s.get j)) = .ok (a.set (s.get j) j) := rfl
    obtain ⟨d, hd, hget⟩ := ih (if keep j.key then a.set (s.get j) j else a)
    rw [List.map_cons, Json.asTable_keeping_cons (find?_tableKey j) hput]
    refine ⟨d, hd, fun k => ?_⟩
    rw [hget]
    by_cases hkj : k = j
    · subst hkj
      cases keep k.key <;> simp [get_set]
    · cases keep j.key <;> simp [get_set, hkj]

/-- Settings of which some are left out have the defaults there. -/
theorem decode_keeping (surplus : Surplus) (keep : String → Bool) (s : AnchorSettings) :
    ∃ d, decode surplus (s.toJson.keeping keep) = .ok d ∧
      ∀ k, d.get k = if keep k.key then s.get k else get {} k := by
  obtain ⟨d, hd, hget⟩ := asTable_keeping surplus keep s Setting.all {}
  refine ⟨d, hd, fun k => ?_⟩
  simp only [hget, mem_all k, true_and]

theorem decode_toJson (surplus : Surplus) (s : AnchorSettings) :
    decode surplus s.toJson = .ok s := by
  obtain ⟨d, hd, hget⟩ := decode_keeping surplus (fun _ => true) s
  rw [Json.keeping_all] at hd
  rw [hd, ext_get hget]

end Splice.AnchorSettings

namespace OutputNames

/-- Names of which some are left out are the default ones there. -/
theorem decode_keeping (surplus : Surplus) (keep : String → Bool) (o : OutputNames) :
    decode surplus (o.toJson.keeping keep) =
      .ok
        { router := if keep "router_file_name" then o.router else OutputNames.router {}
          listing := if keep "listing_file_name" then o.listing else OutputNames.listing {} } := by
  rw [decode, toJson, Json.asTable_keeping_cons rfl rfl, Json.asTable_keeping_cons rfl rfl]
  cases keep "router_file_name" <;> cases keep "listing_file_name" <;> rfl

theorem decode_toJson (surplus : Surplus) (o : OutputNames) :
    decode surplus o.toJson = .ok o := by
  have hkept := decode_keeping surplus (fun _ => true) o
  rwa [Json.keeping_all] at hkept

end OutputNames

namespace Config

/-- The keys of a configuration that are kept, and those of its tables. -/
structure Kept where
  top : String → Bool
  anchors : String → Bool
  output : String → Bool

/-- A configuration in JSON, with the keys only that are kept. -/
def Kept.toJson (kept : Kept) (c : Config) : Json :=
  ((c.toJson.changing "anchors" (Json.keeping kept.anchors)).changing "output"
    (Json.keeping kept.output)).keeping kept.top

/-- `d` agrees with `c` at the keys that are kept, and with the default at all others. -/
structure Overlaid (kept : Kept) (c d : Config) : Prop where
  anchors (k : Setting) : d.anchors.get k =
    if kept.top "anchors" && kept.anchors k.key then c.anchors.get k
    else (Config.anchors {}).get k
  router : d.output.router =
    if kept.top "output" && kept.output "router_file_name" then c.output.router
    else (Config.output {}).router
  listing : d.output.listing =
    if kept.top "output" && kept.output "listing_file_name" then c.output.listing
    else (Config.output {}).listing
  sanitizeInput : d.sanitizeInput =
    if kept.top "sanitize_input" then c.sanitizeInput else Config.sanitizeInput {}

/-- A configuration is read table by table. -/
theorem decode_tables {surplus : Surplus} {vs vo : Json} {s : AnchorSettings} {o : OutputNames}
    (hs : AnchorSettings.decode surplus vs = .ok s) (ho : OutputNames.decode surplus vo = .ok o)
    (keep : String → Bool) (b : Bool) :
    decode surplus (Json.keeping keep
        (.object [("anchors", vs), ("output", vo), ("sanitize_input", .boolean b)])) =
      .ok { anchors := if keep "anchors" then s else Config.anchors {}
            output := if keep "output" then o else Config.output {}
            sanitizeInput := if keep "sanitize_input" then b else Config.sanitizeInput {} } := by
  have hanchors : ∀ a : Config, ({ a with anchors := · }) <$> AnchorSettings.decode surplus vs =
      .ok { a with anchors := s } := by
    intro a
    rw [hs]
    rfl
  have houtput : ∀ a : Config, ({ a with output := · }) <$> OutputNames.decode surplus vo =
      .ok { a with output := o } := by
    intro a
    rw [ho]
    rfl
  rw [decode, Json.asTable_keeping_cons rfl (hanchors _), Json.asTable_keeping_cons rfl (houtput _),
    Json.asTable_keeping_cons rfl rfl]
  cases keep "anchors" <;> cases keep "output" <;> cases keep "sanitize_input" <;> rfl

theorem decode_toJson (surplus : Surplus) (c : Config) : decode surplus c.toJson = .ok c := by
  have hkept := decode_tables (AnchorSettings.decode_toJson surplus c.anchors)
    (OutputNames.decode_toJson surplus c.output) (fun _ => true) c.sanitizeInput
  rwa [Json.keeping_all] at hkept

/-- A configuration of which some keys are left out has the defaults there. -/
theorem decode_partial (surplus : Surplus) (kept : Kept) (c : Config) :
    ∃ d, decode surplus (kept.toJson c) = .ok d ∧ Overlaid kept c d := by
  obtain ⟨s, hs, hget⟩ := AnchorSettings.decode_keeping surplus kept.anchors c.anchors
  have ho := OutputNames.decode_keeping surplus kept.output c.output
  refine ⟨_, decode_tables hs ho kept.top c.sanitizeInput, ?anchors, ?router, ?listing, rfl⟩
  case anchors =>
    intro k
    cases kept.top "anchors" with
    | true => exact hget k
    | false => rfl
  case router => cases kept.top "output" <;> rfl
  case listing => cases kept.top "output" <;> rfl

/-- A configuration, one of whose tables has a key that is not among its own. -/
inductive HasUnknownKey : Json → Prop where
  | top {members : List (String × Json)} {key : String} {v : Json} (hm : (key, v) ∈ members)
      (hkey : key ∉ ["anchors", "output", "sanitize_input"]) : HasUnknownKey (.object members)
  | anchors {members settings : List (String × Json)} {key : String} {v : Json}
      (hm : ("anchors", .object settings) ∈ members) (hs : (key, v) ∈ settings)
      (hkey : key ∉ Setting.all.map Setting.key) : HasUnknownKey (.object members)
  | output {members names : List (String × Json)} {key : String} {v : Json}
      (hm : ("output", .object names) ∈ members) (hn : (key, v) ∈ names)
      (hkey : key ∉ ["router_file_name", "listing_file_name"]) : HasUnknownKey (.object members)

/-- A configuration with a key that is not known is refused, whatever else it says. -/
theorem decode_hasUnknownKey (surplus : Surplus) {v : Json} (h : HasUnknownKey v) :
    ∃ e, decode surplus v = .error e := by
  cases h with
  | top hm hkey => exact Json.asTable_error_of_unknown hm hkey
  | anchors hm hs hkey =>
    refine Json.asTable_error_of_put hm rfl fun a => ?_
    have hkeys : Setting.all.map Setting.key = (Setting.all.map AnchorSettings.tableKey).map
        TableKey.key := rfl
    obtain ⟨e, he⟩ : ∃ e, AnchorSettings.decode surplus (.object _) = .error e :=
      Json.asTable_error_of_unknown hs (hkeys ▸ hkey)
    exact ⟨e, congrArg (Except.map _) he⟩
  | output hm hn hkey =>
    refine Json.asTable_error_of_put hm rfl fun a => ?_
    obtain ⟨e, he⟩ : ∃ e, OutputNames.decode surplus (.object _) = .error e :=
      Json.asTable_error_of_unknown hn hkey
    exact ⟨e, congrArg (Except.map _) he⟩

end Config

end Graft
