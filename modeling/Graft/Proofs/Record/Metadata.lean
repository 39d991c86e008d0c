import Graft.Proofs.Record.Shape

/-!
# What metadata is found in

A component's name and a route's path come from their snippet, and re-indenting cannot hide them.

* `component?_spec`: a component's name is an identifier that occurs in the import;
* `routePath?_spec`: a route's path has no quote, and the route shows it as an attribute;
* `entryPath?_spec`: an entry's path has no quote of either kind;
* `solid_routeAttribute`: paths on one line, as routes show them, are solid words.
-/

namespace Graft.Metadata

open Text

/-- A component's name is an identifier of the import. -/
theorem component?_spec {t name : Text} (h : component? t = some name) :
    Identifier name ∧ contains name t := by
  obtain ⟨front, _, rfl, ⟨-, hname, gap, gap', rest, -, -, -, -, -, rfl⟩, -⟩ :=
    ((finds_of_matches matches_componentAt?).some_iff _ _).1 h
  refine ⟨hname.identifier, contains_iff.2 ⟨front ++ ("import".toList ++ gap),
    gap' ++ ("from".toList ++ rest), ?_⟩⟩
  simp only [List.append_assoc]

/-- A route's path is not empty and has no quote, and the route shows it. -/
theorem routePath?_spec {t path : Text} (h : routePath? t = some path) :
    path ≠ [] ∧ '"' ∉ path ∧ contains (routeAttribute path) t := by
  have hshown := ((finds_of_matches matches_routePathAt?).some_iff _ _).1 h
  obtain ⟨_, _, _, ⟨-, hne, hq, _⟩, -⟩ := id hshown
  exact ⟨hne, hq, hshown.contains_routeAttribute⟩

/-- An entry's path has no quote of either kind. -/
theorem entryPath?_spec {t path : Text} (h : entryPath? t = some path) :
    path ≠ [] ∧ '"' ∉ path ∧ '\'' ∉ path := by
  obtain ⟨_, _, _, ⟨-, hne, hmark, _⟩, -⟩ :=
    ((finds_of_matches matches_entryPathAt?).some_iff _ _).1 h
  exact ⟨hne, fun hq => hmark _ hq (.inl rfl), fun hq => hmark _ hq (.inr rfl)⟩

/-- An entry's icon is an identifier. -/
theorem icon?_identifier {t name : Text} (h : icon? t = some name) : Identifier name := by
  obtain ⟨_, _, _, ⟨-, hname, _⟩, -⟩ :=
    ((finds_of_matches matches_iconAt?).some_iff _ _).1 h
  exact hname.identifier

/-- A path on one line, as routes show it, is a solid word. -/
theorem solid_routeAttribute {path : Text} (h : '\n' ∉ path) : Solid (routeAttribute path) := by
  rw [routeAttribute_eq]
  exact ⟨⟨'p', _, rfl, rfl⟩, ⟨_, '"', rfl, rfl⟩, by simp [h]⟩

end Graft.Metadata
