import Graft.Batch.Run

/-!
# Integrators made from a configuration

`Integrator.strategy_ofConfig` says that an integrator made from a configuration has, for every
kind, the strategy that the configured anchors give.  The configured words that it searches for are
then not empty (`fallbackMarker_ne_nil`).
-/

namespace Graft

open Splice

namespace Splice

theorem Imports.strategy_eq_ok {s : AnchorSettings} {st : Strategy}
    (h : Imports.strategy s = .ok st) :
    s.moduleImportPrefix ≠ [] ∧
      st = ⟨.importLine, "imports", Imports.findAnchor s, Imports.splice⟩ := by
  unfold Imports.strategy at h
  split at h
  · cases h
  · rename_i hp
    cases h
    exact ⟨by simpa using hp, rfl⟩

theorem Routes.strategy_eq_ok {s : AnchorSettings} {st : Strategy}
    (h : Routes.strategy s = .ok st) :
    s.fallbackMarker ≠ [] ∧ st = ⟨.route, "routes", Routes.findAnchor s, Routes.splice⟩ := by
  unfold Routes.strategy at h
  split at h
  · cases h
  · rename_i hp
    cases h
    exact ⟨by simpa using hp, rfl⟩

theorem Icons.strategy_eq_ok {s : AnchorSettings} {st : Strategy}
    (h : Icons.strategy s = .ok st) :
    s.iconLibrary ≠ [] ∧ st = ⟨.icon, "icons", Icons.findAnchor s, Icons.splice⟩ := by
  unfold Icons.strategy at h
  split at h
  · cases h
  · rename_i hp
    cases h
    exact ⟨by simpa using hp, rfl⟩

theorem Entries.strategy_eq_ok {s : AnchorSettings} {st : Strategy}
    (h : Entries.strategy s = .ok st) :
    s.listName ≠ [] ∧ s.listType ≠ [] ∧
      st = ⟨.listEntry, "list", Entries.findAnchor s, Entries.splice⟩ := by
  unfold Entries.strategy at h
  split at h
  · cases h
  · rename_i hn
    split at h
    · cases h
    · rename_i ht
      cases h
      exact ⟨by simpa using hn, by simpa using ht, rfl⟩

theorem Strategy.kind_ofSettings {s : AnchorSettings} {k : SnippetKind} {st : Strategy}
    (h : Strategy.ofSettings s k = .ok st) : st.kind = k := by
  cases k with
  | importLine => rw [(Imports.strategy_eq_ok h).2]
  | route => rw [(Routes.strategy_eq_ok h).2]
  | icon => rw [(Icons.strategy_eq_ok h).2]
  | listEntry => rw [(Entries.strategy_eq_ok h).2.2]

/-- Registering strategies one after the other keeps those of the other kinds. -/
theorem Engine.foldlM_register {s : AnchorSettings} {ks : List SnippetKind} {e e' : Engine}
    (h : ks.foldlM (fun e k => e.register <$> Strategy.ofSettings s k) e = .ok e')
    (k : SnippetKind) :
    (k ∈ ks → ∃ st, Strategy.ofSettings s k = .ok st ∧ e'.strategy? k = some st) ∧
      (k ∉ ks → e'.strategy? k = e.strategy? k) := by
  induction ks generalizing e with
  | nil => cases h; simp
  | cons j ks ih =>
    rw [List.foldlM_cons] at h
    cases hj : Strategy.ofSettings s j with
    | error _ => rw [hj] at h; cases h
    | ok st =>
      rw [hj] at h
      have hkind := Strategy.kind_ofSettings hj
      obtain ⟨hin, hout⟩ := ih (e := e.register st) h
      refine ⟨fun hk => ?_, fun hk => ?_⟩
      · by_cases hks : k ∈ ks
        · exact hin hks
        · obtain rfl : k = j := by simpa [hks] using hk
          exact ⟨st, hj, by rw [hout hks, strategy?_register, if_pos hkind.symm]⟩
      · have hne : k ≠ st.kind := fun hc => hk (by simp [hc, hkind])
        rw [hout fun hks => hk (List.mem_cons_of_mem j hks), strategy?_register, if_neg hne]

theorem Engine.strategy?_ofSettings {s : AnchorSettings} {e : Engine}
    (h : Engine.ofSettings s = .ok e) (k : SnippetKind) :
    ∃ st, Strategy.ofSettings s k = .ok st ∧ e.strategy? k = some st :=
  (Engine.foldlM_register h k).1 (SnippetKind.mem_all k)

end Splice

namespace Integrator

theorem ofEngine_eq_ok {config : Config} {e : Engine} {i : Integrator}
    (h : ofEngine config e = .ok i) : i.config = config ∧ i.engine = e := by
  unfold ofEngine at h
  split at h
  · cases h; exact ⟨rfl, rfl⟩
  · cases h

theorem ofConfig_eq_ok {config : Config} {i : Integrator} (h : ofConfig config = .ok i) :
    i.config = config ∧ Engine.ofSettings config.anchors = .ok i.engine := by
  unfold ofConfig at h
  cases he : Engine.ofSettings config.anchors with
  | error _ => rw [he] at h; cases h
  | ok e =>
    rw [he] at h
    obtain ⟨hc, rfl⟩ := ofEngine_eq_ok h
    exact ⟨hc, rfl⟩

/-- The strategies are those that the configured anchors give. -/
theorem strategy_ofConfig {config : Config} {i : Integrator} (h : ofConfig config = .ok i)
    (k : SnippetKind) : Strategy.ofSettings config.anchors k = .ok (i.strategy k) := by
  obtain ⟨st, hs, he⟩ := Engine.strategy?_ofSettings (ofConfig_eq_ok h).2 k
  rw [hs, strategy]
  simp [he]

section
variable {config : Config} {i : Integrator} (h : ofConfig config = .ok i)
include h

theorem importStrategy :
    i.strategy .importLine =
      ⟨.importLine, "imports", Imports.findAnchor config.anchors, Imports.splice⟩ :=
  (Imports.strategy_eq_ok (strategy_ofConfig h .importLine)).2

theorem routeStrategy :
    i.strategy .route = ⟨.route, "routes", Routes.findAnchor config.anchors, Routes.splice⟩ :=
  (Routes.strategy_eq_ok (strategy_ofConfig h .route)).2

theorem iconStrategy :
    i.strategy .icon = ⟨.icon, "icons", Icons.findAnchor config.anchors, Icons.splice⟩ :=
  (Icons.strategy_eq_ok (strategy_ofConfig h .icon)).2

theorem entryStrategy :
    i.strategy .listEntry =
      ⟨.listEntry, "list", Entries.findAnchor config.anchors, Entries.splice⟩ :=
  (Entries.strategy_eq_ok (strategy_ofConfig h .listEntry)).2.2

theorem fallbackMarker_ne_nil : config.anchors.fallbackMarker ≠ [] :=
  (Routes.strategy_eq_ok (strategy_ofConfig h .route)).1

end

/-! ## Default settings -/

/-- The integrator with the default configuration. -/
def standard : Integrator := (ofConfig {}).toOption.get (by decide +kernel)

theorem ofConfig_standard : ofConfig {} = .ok standard := rfl

theorem fallbackMarker_head (c : Char)
    (h : ({} : AnchorSettings).fallbackMarker.head? = some c) : Text.isIdentRest c = false := by
  have hhead : ({} : AnchorSettings).fallbackMarker.head? = some '\x7b' := by decide +kernel
  obtain rfl := Option.some.inj (hhead.symm.trans h)
  decide

theorem exists_ofConfig {config : Config} (h : config.anchors = {}) :
    ∃ i, ofConfig config = .ok i := by
  cases config
  cases h
  exact ⟨_, rfl⟩

/-- A document that carries the three snippets. -/
def documentOf (importLine route entry : Text) : Text :=
  "<module><module_name>M".toList ++ "</module_name><slug>m</slug>".toList ++
    "<integration><import>".toList ++ importLine ++ "</import><route><![CDATA[".toList ++ route ++
    "]]></route><home_card>".toList ++ entry ++ "</home_card></integration>".toList ++
    "</module>".toList

/-- Two documents whose routes have the same path, and whose entries do not. -/
def rivals : List Text :=
  [documentOf "import A from '@modules/a'".toList "<Route path=\"/a\" />".toList
      "\x7b path: '/a', icon: Anchor \x7d".toList,
    documentOf "import B from '@modules/b'".toList "<Route path=\"/a\" />".toList
      "\x7b path: '/b', icon: Bell \x7d".toList]

/-- A router and a listing with every anchor. -/
def bare : Targets :=
  ⟨"// Import modules\n".toList ++ "  \x7b/* 404 Fallback */\x7d\n".toList,
    "import \x7b Film \x7d from ".toList ++ "'lucide-react';\n".toList ++
      "const modules: Module[] = [];\n".toList⟩

end Integrator

end Graft
