import Graft.Codec.Document
import Graft.Codec.Splice
import Graft.Proofs.Codec.Table

/-!
# Values read back from JSON

* `Json.asChoice_key`: an alternative is read back from its name;
* `Document.decode_toJson`, `Record.decode_toJson`, `Outcome.decode_toJson`: so are structures,
  member by member, and an outcome from its name and its members;
* `decoding_inverts_encoding`: what holds of all decoders together, and of configurations in part.
-/

namespace Graft

open Splice (AnchorKind AnchorSettings Outcome Setting SnippetKind TargetRole)

namespace Json

/-! ## Scalars, lists and alternatives -/

theorem asText_string (t : Text) : asText (.string t) = .ok t := rfl

theorem asOption_ofOption (t : Option Text) : asOption asText (ofOption t) = .ok t := by
  cases t <;> rfl

theorem asMembers_object (keys : List String) (members : List (String × Json)) :
    asMembers keys (.object members) = .ok members := rfl

theorem member_cons (key key' : String) (v : Json) (members : List (String × Json)) :
    member key ((key', v) :: members) = if key = key' then v else member key members := by
  rw [member, List.lookup_cons]
  by_cases h : key = key'
  · rw [if_pos h, beq_iff_eq.2 h, Option.getD_some]
  · rw [if_neg h, beq_eq_false_iff_ne.2 h, member]

theorem asNat_ofNat {n : Nat} (h : n < Nat.pow 2 64) : asNat (ofNat n) = .ok n := if_pos h

/-- Items that are read back one by one are read back as a list. -/
theorem asList_map {α : Type} {item : Json → Except DecodeFault α} {toJson : α → Json}
    (h : ∀ a, item (toJson a) = .ok a) (as : List α) :
    asList item (.array (as.map toJson)) = .ok as := by
  induction as with
  | nil => rfl
  | cons a as ih =>
    simp only [asList, List.map_cons, List.mapM_cons] at *
    rw [h a, ih]
    rfl

section Choice

variable {α : Type} {all : List α} {key : α → String} (hkeys : (all.map key).Nodup) {a : α}
  (ha : a ∈ all)

include hkeys ha

theorem named_key : named all key (key a).toList = .ok a := by
  rw [named, String.ofList_toList, find?_key hkeys ha]
  rfl

/-- An alternative is read back from its name. -/
theorem asChoiceBy_key (isUnit : Json → Bool) :
    asChoiceBy isUnit all key (ofString (key a)) = .ok a := named_key hkeys ha

theorem asChoice_key : asChoice all key (ofString (key a)) = .ok a := asChoiceBy_key hkeys ha isNull

end Choice

end Json

theorem SnippetField.decode_key (f : SnippetField) : decode (.ofString f.key) = .ok f :=
  Json.asChoice_key (by decide) (by cases f <;> decide)

theorem Splice.SnippetKind.decode_key (k : SnippetKind) : decode (.ofString k.key) = .ok k :=
  Json.asChoice_key (by decide) k.mem_all

theorem Splice.TargetRole.decode_key (r : TargetRole) : decode (.ofString r.key) = .ok r :=
  Json.asChoice_key (by decide) (by cases r <;> decide)

theorem Splice.AnchorKind.nodup_keys : (all.map key).Nodup := by decide

theorem Splice.AnchorKind.mem_all (k : AnchorKind) : k ∈ all := by
  cases k <;> decide

theorem Splice.AnchorKind.decode_key (k : AnchorKind) : decode (.ofString k.key) = .ok k :=
  Json.asChoice_key nodup_keys k.mem_all

/-! ## Structures -/

theorem ModuleFile.decode_toJson (f : ModuleFile) : decode f.toJson = .ok f := rfl

theorem Snippets.decode_toJson (s : Snippets) : decode s.toJson = .ok s := by
  unfold decode toJson
  simp only [SnippetField.all, List.map_cons, List.map_nil, SnippetField.key, get,
    Json.asMembers_object, ok_bind, Json.member_cons, String.reduceEq, if_true, if_false,
    Json.asOption_ofOption]
  rfl

theorem Document.decode_toJson (d : Document) : decode d.toJson = .ok d := by
  have hfiles := Json.asList_map ModuleFile.decode_toJson d.files
  unfold decode toJson
  simp only [Json.asMembers_object, ok_bind, Json.member_cons, String.reduceEq, if_true, if_false,
    Json.asText_string, Json.asOption_ofOption, hfiles, Snippets.decode_toJson]
  rfl

theorem Record.decode_toJson {r : Record} (h : r.index < Nat.pow 2 64) :
    decode r.toJson = .ok r := by
  have hindex : Json.asNat (.ofNat r.index) = .ok r.index := Json.asNat_ofNat h
  unfold decode toJson
  simp only [Json.asMembers_object, ok_bind, Json.member_cons, String.reduceEq, if_true, if_false,
    hindex, Json.asOption_ofOption]
  rfl

/-! ## Outcomes -/

namespace Splice.Outcome

/-- The numbers that an outcome can hold. -/
def InRange : Outcome → Prop
  | .spliced _ inserted => inserted < Nat.pow 2 64
  | _ => True

theorem Tag.named_key (t : Tag) : Json.named Tag.all Tag.key t.key.toList = .ok t :=
  Json.named_key (by decide) (by cases t <;> decide)

theorem anchorIn_key (k : AnchorKind) {members : List (String × Json)}
    (h : Json.member "anchor" members = .ofString k.key) : anchorIn members = .ok k := by
  rw [anchorIn, h]
  exact Json.asChoiceBy_key AnchorKind.nodup_keys k.mem_all _

/-- An outcome is read by its name, and then from its members. -/
theorem decode_object (t : Tag) (members : List (String × Json)) :
    decode (.object (("outcome", .ofString t.key) :: members)) =
      ofMembers (("outcome", .ofString t.key) :: members) t := by
  have htag : tagOf (.ofString t.key) = .ok t := Tag.named_key t
  rw [decode, Json.member_cons, if_pos rfl, htag]
  rfl

theorem decode_toJson {o : Outcome} (h : o.InRange) : decode o.toJson = .ok o := by
  cases o with
  | spliced a n =>
    have hn : Json.asNat (.ofNat n) = .ok n := Json.asNat_ofNat h
    rw [toJson, decode_object, ofMembers, anchorIn_key a rfl]
    exact congrArg (Except.map _) hn
  | nothingNew a =>
    rw [toJson, decode_object, ofMembers, anchorIn_key a rfl]
    rfl
  | anchorMissing => exact decode_object .anchorMissing []
  | empty => exact decode_object .empty []

end Splice.Outcome

/-! ## All decoders -/

/-- Every value is read back as it was written. -/
structure RoundTrips (surplus : Surplus) : Prop where
  document (d : Document) : Document.decode d.toJson = .ok d
  record (r : Record) : r.index < Nat.pow 2 64 → Record.decode r.toJson = .ok r
  settings (s : AnchorSettings) : AnchorSettings.decode surplus s.toJson = .ok s
  names (o : OutputNames) : OutputNames.decode surplus o.toJson = .ok o
  config (c : Config) : Config.decode surplus c.toJson = .ok c
  snippetKind (k : SnippetKind) : SnippetKind.decode (.ofString k.key) = .ok k
  snippetField (f : SnippetField) : SnippetField.decode (.ofString f.key) = .ok f
  targetRole (r : TargetRole) : TargetRole.decode (.ofString r.key) = .ok r
  anchorKind (k : AnchorKind) : AnchorKind.decode (.ofString k.key) = .ok k
  outcome (o : Outcome) : o.InRange → Outcome.decode o.toJson = .ok o

/-- Decoding undoes encoding; a configuration of which keys are left out has the defaults there, and
one with a key that is not known is refused. -/
theorem decoding_inverts_encoding (surplus : Surplus) :
    RoundTrips surplus ∧
      (∀ (kept : Config.Kept) (c : Config), ∃ d,
        Config.decode surplus (kept.toJson c) = .ok d ∧ Config.Overlaid kept c d) ∧
      ∀ v, Config.HasUnknownKey v → ∃ e, Config.decode surplus v = .error e := by
  refine ⟨⟨?_, ?_, ?_, ?_, ?_, ?_, ?_, ?_, ?_, ?_⟩, ?kept, ?unknown⟩
  · exact Document.decode_toJson
  · exact fun _ => Record.decode_toJson
  · exact AnchorSettings.decode_toJson surplus
  · exact OutputNames.decode_toJson surplus
  · exact Config.decode_toJson surplus
  · exact SnippetKind.decode_key
  · exact SnippetField.decode_key
  · exact TargetRole.decode_key
  · exact AnchorKind.decode_key
  · exact fun _ => Outcome.decode_toJson
  case kept => exact Config.decode_partial surplus
  case unknown => exact fun _ => Config.decode_hasUnknownKey surplus

theorem decoding_inverts_encoding_list_name :
    (∃ d, Config.decode .refused
        (.object [("anchors", .object [("list_name", .ofString "pages")])]) = .ok d ∧
      d.anchors.listName = "pages".toList ∧ d.anchors.listType = "Module".toList ∧
      d.output.router = "App.tsx".toList ∧ d.sanitizeInput = true) ∧
    ∃ e, Config.decode .refused
      (.object [("anchors", .object [("list_nmae", .ofString "pages")])]) = .error e := by
  obtain ⟨-, hpartial, hunknown⟩ := decoding_inverts_encoding .refused
  constructor
  · obtain ⟨d, hd, hover⟩ := hpartial ⟨(· == "anchors"), (· == "list_name"), fun _ => true⟩
      { anchors := { listName := "pages".toList } }
    exact ⟨d, hd, hover.anchors .listName, hover.anchors .listType, hover.router,
      hover.sanitizeInput⟩
  · apply hunknown
    exact .anchors List.mem_cons_self List.mem_cons_self (by decide)

end Graft
