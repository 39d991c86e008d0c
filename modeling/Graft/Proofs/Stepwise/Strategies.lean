import Graft.Proofs.Batch.Patching
import Graft.Proofs.Batch.Setup
import Graft.Proofs.Stepwise.Entries
import Graft.Proofs.Stepwise.Icons
import Graft.Proofs.Stepwise.Imports
import Graft.Proofs.Stepwise.Routes

/-!
# Splicing in several steps

Snippets that are spliced in two steps are spliced as they would be in one, whatever the text is,
if those of the first step leave an anchor that the second step finds where they end.

* `Behaves`: what each kind of snippet asks for that;
* `apply_apply`: two steps are one, for each of the four strategies.
-/

namespace Graft.Splice.Strategy

open Text

/-- What a kind asks of a snippet that others are spliced behind. -/
def Behaves (s : AnchorSettings) : SnippetKind → Text → Prop
  | .importLine, x =>
    Imports.moduleImport? s.moduleImportPrefix (Imports.terminated x ++ ['\n']) = some []
  | .route, x => contains s.fallbackMarker x = false ∧ contains Routes.wildcardPath x = false
  | .icon, x => ∃ entry, Metadata.icon? entry = some x
  | .listEntry, x => Entries.Settled x

section
variable {st : Strategy} {t : Text} {a : Anchor} {xs ys : List Text}

/-- Two steps are one if the anchor is found again, and splices what is left as it would have. -/
theorem apply_apply_of_resumed
    (h : xs ≠ [] → ∀ a, st.findAnchor t = some a →
      ∃ a', st.findAnchor (st.splice a xs).text = some a' ∧
        ∀ ys, ys ≠ [] → (st.splice a' ys).text = (st.splice a (xs ++ ys)).text)
    (ys : List Text) :
    (st.apply (st.apply t xs).text ys).text = (st.apply t (xs ++ ys)).text := by
  by_cases hx : xs = []
  · rw [hx, apply_nil, List.nil_append]
  · by_cases hy : ys = []
    · rw [hy, apply_nil, List.append_nil]
    · have hxy : xs ++ ys ≠ [] := by simp [hx]
      cases ha : st.findAnchor t with
      | none =>
        rw [apply_of_findAnchor_eq_none hx ha, apply_of_findAnchor_eq_none hy ha,
          apply_of_findAnchor_eq_none hxy ha]
      | some a =>
        obtain ⟨a', ha', hstep⟩ := h hx a ha
        rw [apply_text hx ha, apply_text hy ha',
          apply_text hxy ha, hstep ys hy]

end

/-- Snippets that are spliced in two steps are spliced as they would be in one. -/
theorem apply_apply {k : SnippetKind} {st : Strategy} (h : ofSettings {} k = .ok st)
    {xs : List Text} (hxs : ∀ x ∈ xs, Behaves {} k x) (t : Text) (ys : List Text) :
    (st.apply (st.apply t xs).text ys).text = (st.apply t (xs ++ ys)).text := by
  refine apply_apply_of_resumed (fun hx a ha => ?_) ys
  cases k with
  | importLine =>
    obtain ⟨-, rfl⟩ := Imports.strategy_eq_ok h
    exact ⟨_, Imports.findAnchor_inserted Imports.sourced_default hxs hx ha,
      fun ys _ => Imports.splice_inserted ha xs ys⟩
  | route =>
    obtain ⟨-, rfl⟩ := Routes.strategy_eq_ok h
    obtain ⟨a', ha', hstep⟩ := Routes.exists_resumed Routes.steady_default hxs ha
    exact ⟨a', ha', fun ys _ => hstep ys⟩
  | icon =>
    obtain ⟨-, rfl⟩ := Icons.strategy_eq_ok h
    have hid : ∀ x ∈ xs, Identifier x := fun x hx => by
      obtain ⟨_, he⟩ := hxs x hx
      exact Metadata.icon?_identifier he
    obtain ⟨a', ha', hstep⟩ := Icons.exists_resumed plain_default.library hid ha
    exact ⟨a', ha', fun ys _ => hstep ys⟩
  | listEntry =>
    obtain ⟨-, -, rfl⟩ := Entries.strategy_eq_ok h
    exact Entries.exists_resumed distinct_default (by decide +kernel) hx hxs ha

theorem apply_apply_entries :
    ofSettings {} .listEntry = .ok Entries.standard ∧
      (∀ x ∈ ["\x7b a: 1 \x7d".toList], Behaves {} .listEntry x) ∧
      (Entries.standard.apply (Entries.standard.apply "const modules: Module[] = [];\n".toList
          ["\x7b a: 1 \x7d".toList]).text ["\x7b b: 2 \x7d".toList]).text =
        (Entries.standard.apply "const modules: Module[] = [];\n".toList
          (["\x7b a: 1 \x7d".toList] ++ ["\x7b b: 2 \x7d".toList])).text := by
  have h : ofSettings {} .listEntry = .ok Entries.standard := Entries.strategy_default
  have hxs : ∀ x ∈ ["\x7b a: 1 \x7d".toList], Behaves {} .listEntry x := by
    intro x hx
    obtain rfl := List.mem_singleton.1 hx
    exact ⟨by decide +kernel, by decide +kernel, by decide +kernel, by decide +kernel⟩
  exact ⟨h, hxs, apply_apply h hxs _ _⟩

/-- An entry of one line without a comment that ends with a blank, and with a comma in front of it:
added alone it leaves a comma at the end of the body, which then counts as one that ends the list,
and added with another entry it is given a second comma. -/
theorem apply_comma_behind_blank :
    let x := "\x7b a: 1 \x7d, ".toList
    let y := "\x7b b: 2 \x7d".toList
    let t := "const modules: Module[] = [];\n".toList
    (isBlank x = false ∧ contains Entries.close x = false ∧ lines x = [x] ∧
      commentCut? .code x = none ∧ endsWith ',' x = false) ∧
      (Entries.standard.apply (Entries.standard.apply t [x]).text [y]).text =
        "const modules: Module[] = [\n  \x7b a: 1 \x7d,\n\n  \x7b b: 2 \x7d,\n];\n".toList ∧
      (Entries.standard.apply t [x, y]).text =
        "const modules: Module[] = [\n  \x7b a: 1 \x7d,,\n\n  \x7b b: 2 \x7d\n];\n".toList := by
  decide +kernel

end Graft.Splice.Strategy
