import Graft.Proofs.Batch.History
import Graft.Proofs.Splice.Frame
import Graft.Proofs.Stepwise.Merging

/-!
# What a batch does to the listing

A batch merges its icons into one span of the listing and adds its entries to another, and leaves
what stands around the two as it was.

* `icons_text`, `entries_text`: the listing after each of its two splices;
* `listing_frame`: the listing after both, by what is in the two spans.
-/

namespace Graft.Integrator

open Splice Text

theorem snippetsOf_icon (staged : List Staged) :
    snippetsOf staged .icon = staged.filterMap (·.icon) := snippetsOf_eq staged .icon

theorem snippetsOf_listEntry (staged : List Staged) :
    snippetsOf staged .listEntry = staged.map (·.snippets.entry) := by
  rw [snippetsOf_eq, ← List.filterMap_eq_map]
  rfl

variable {config : Config} {i : Integrator}

section
variable (h : ofConfig config = .ok i) (staged : List Staged) (targets : Targets)
include h

theorem icons_text {a : Anchor} (ha : Icons.findAnchor config.anchors targets.listing = some a) :
    i.textBefore staged targets .listEntry =
      a.replace (Icons.merged a (snippetsOf staged .icon)) := by
  change (i.insertionOf staged targets .icon).text = _
  have ha' : (i.strategy .icon).findAnchor (i.textBefore staged targets .icon) = some a := by
    rw [iconStrategy h]
    exact ha
  by_cases hs : snippetsOf staged .icon = []
  · rw [i.insertionOf_text_of_nil staged targets hs, hs]
    exact (Icons.text_of_findAnchor ha).symm
  · rw [i.insertionOf_text staged targets hs ha', iconStrategy h]
    exact Icons.splice_text a _

theorem entries_text {b : Anchor}
    (hb : Entries.findAnchor config.anchors (i.textBefore staged targets .listEntry) = some b)
    (ht : b.text = i.textBefore staged targets .listEntry) :
    (i.patchAll staged targets).targets.listing =
      b.replace (Entries.grown b.span b.indent (snippetsOf staged .listEntry)) := by
  rw [patchAll_eq]
  dsimp only
  have hb' : (i.strategy .listEntry).findAnchor (i.textBefore staged targets .listEntry) =
      some b := by
    rw [entryStrategy h]
    exact hb
  by_cases hs : snippetsOf staged .listEntry = []
  · rw [i.insertionOf_text_of_nil staged targets hs, Entries.grown, if_pos hs]
    exact ht.symm
  · rw [i.insertionOf_text staged targets hs hb', entryStrategy h, Entries.grown, if_neg hs]
    rfl

end

/-- **The listing changes in two spans alone.**  A batch replaces the list of icons and the array's
body, and nothing else of the listing.  The list is kept up to the blanks at its end, and behind it
come the icons of the processed documents that it did not name, each once, joined by commas.  The
body is kept up to the blanks at its end, with at most one comma put in, and the entries of the
processed documents are added to it, in the order of the batch.  The body is found between the two
splices where it was before them, unless it begins right behind the list. -/
theorem listing_frame (h : ofConfig config = .ok i) (hd : config.anchors = {}) (inputs : List Text)
    (targets : Targets) {icons array : Anchor}
    (hicons : Icons.findAnchor {} targets.listing = some icons)
    (harray : Entries.findAnchor {} targets.listing = some array) (hapart : icons.Apart array) :
    let accepted := (i.filter targets inputs).staged
    let merged := ((i.strategy .icon).apply targets.listing (accepted.filterMap (·.icon))).text
    ∃ names body,
      targets.listing = icons.replaceBoth array icons.span array.span ∧
      (i.run inputs targets).targets.listing = icons.replaceBoth array names body ∧
      (∃ added, names = trimEnd icons.span ++ added ∧ Icons.Binds
        (Icons.missing (Icons.namesOf icons.span) (accepted.filterMap (·.icon))) added) ∧
      Entries.Extends ({} : AnchorSettings).listIndent array.span
        (accepted.map (·.snippets.entry)) body ∧
      merged = icons.replaceBoth array names array.span ∧
      (icons.stop ≠ array.start →
        ∃ moved, Entries.findAnchor {} merged = some moved ∧ moved.span = array.span ∧
          ∀ body, moved.replace body = icons.replaceBoth array names body) ∧
      accepted.map (·.index) =
        ((i.run inputs targets).records.filter (·.isProcessed)).map (·.index) ∧
      (i.run inputs targets).records.map (·.index) = List.range' 1 inputs.length := by
  intro accepted merged
  rw [← snippetsOf_icon, ← snippetsOf_listEntry]
  have hicon : ∀ icon ∈ snippetsOf accepted .icon, Identifier icon :=
    fun _ => i.identifier_staged_icon inputs targets
  have hid : Identifiers (snippetsOf accepted .icon) := fun icon hm => (hicon icon hm).rest
  have htext : icons.text = array.text :=
    (Icons.text_of_findAnchor hicons).trans (Entries.text_of_findAnchor harray).symm
  have hmerged : merged = icons.replace (Icons.merged icons (snippetsOf accepted .icon)) := by
    have hicons' : Icons.findAnchor config.anchors targets.listing = some icons := hd ▸ hicons
    rw [← icons_text h accepted targets hicons', textBefore, snippetsOf_icon]
  obtain ⟨added, hnames, hbinds⟩ := Icons.merged_eq
    (Icons.isBlank_indent_of_findAnchor hicons) (snippetsOf accepted .icon)
  rw [Icons.fresh_eq_missing hicon] at hbinds
  obtain ⟨shift, moved, hmoved, hspan, hindent, hreplace, hshift⟩ :=
    exists_declaration distinct_default hicons harray hapart hid
  obtain ⟨body, hbody, hextends⟩ := Entries.exists_grown
    (hshift.imp_right (·.2)) array.indent (snippetsOf accepted .listEntry)
  rw [← hmerged] at hmoved
  have hmoved' : Entries.findAnchor config.anchors (i.textBefore accepted targets .listEntry) =
      some moved := by
    rw [hd, ← hmoved, textBefore, snippetsOf_icon]
  have hrun : (i.run inputs targets).targets.listing = moved.replace (shift ++ body) := by
    change (i.patchAll accepted targets).targets.listing = _
    rw [entries_text h accepted targets hmoved' (Entries.text_of_findAnchor (hd ▸ hmoved')), hspan,
      hindent, hbody]
  have hrecords := i.filterFrom_index targets ⟨[], []⟩ 1 inputs rfl
  refine ⟨_, body, ?_, hrun.trans (hreplace body), ⟨added, hnames, hbinds⟩, ?_, ?_, ?_, ?_, ?_⟩
  · rw [Anchor.replaceBoth_span htext hapart]
    exact (Entries.text_of_findAnchor harray).symm
  · rwa [Entries.indent_of_findAnchor distinct_default harray] at hextends
  · rw [← hreplace, ← hspan, Anchor.replace_span]
    exact (Entries.text_of_findAnchor hmoved).symm
  · intro hne
    obtain rfl : shift = [] := hshift.resolve_right fun hcorner => hne hcorner.1
    exact ⟨moved, hmoved, hspan, hreplace⟩
  · rw [run_filter_isProcessed]
    exact hrecords.2
  · rw [run_map_index]
    exact hrecords.1

theorem listing_frame_bare :
    let icons : Anchor := ⟨.iconImport, "import \x7b".toList, " Film ".toList,
      "\x7d from ".toList ++ "'lucide-react';\n".toList ++
        "const modules: Module[] = [];\n".toList, []⟩
    let array : Anchor := ⟨.listDeclaration,
      "import \x7b Film \x7d from ".toList ++ "'lucide-react';\n".toList ++
        "const modules: Module[] = [".toList, [], "];\n".toList, "  ".toList⟩
    Icons.findAnchor {} bare.listing = some icons ∧
      Entries.findAnchor {} bare.listing = some array ∧ icons.Apart array ∧
      icons.stop ≠ array.start ∧ ∃ names body,
        bare.listing = icons.replaceBoth array icons.span array.span ∧
        (standard.run rivals bare).targets.listing = icons.replaceBoth array names body := by
  intro icons array
  have hicons : Icons.findAnchor {} bare.listing = some icons := by decide +kernel
  have harray : Entries.findAnchor {} bare.listing = some array := by decide +kernel
  have hapart : icons.Apart array := by decide +kernel
  obtain ⟨names, body, hbare, hrun, _⟩ :=
    listing_frame ofConfig_standard rfl rivals bare hicons harray hapart
  exact ⟨hicons, harray, hapart, by decide +kernel, names, body, hbare, hrun⟩

/-- A listing whose array begins right behind the list of icons, inside the import. -/
def crowded : Targets :=
  ⟨bare.router,
    "import \x7bconst modules: Module[] = [".toList ++ "\x7d from \"lucide-react\";\n".toList ++
      "];\n".toList⟩

/-- A document with an icon that the listing lacks. -/
def starred : List Text :=
  [documentOf "import A from '@modules/a'".toList "<Route path=\"/a\" />".toList
    "\x7b path: '/a', icon: Star \x7d".toList]

/-- An icon that is put right in front of the array's body becomes a part of it. -/
theorem body_crowded :
    let icons : Anchor := ⟨.iconImport, "import \x7b".toList,
      "const modules: Module[] = [".toList,
      "\x7d from \"lucide-react\";\n".toList ++ "];\n".toList, []⟩
    let array : Anchor := ⟨.listDeclaration, "import \x7bconst modules: Module[] = [".toList,
      "\x7d from \"lucide-react\";\n".toList, "];\n".toList, "  ".toList⟩
    let accepted := (standard.filter crowded starred).staged
    let merged :=
      ((standard.strategy .icon).apply crowded.listing (accepted.filterMap (·.icon))).text
    Icons.findAnchor {} crowded.listing = some icons ∧
      Entries.findAnchor {} crowded.listing = some array ∧ icons.Apart array ∧
      Entries.findAnchor {} merged =
        some { array with span := ", Star".toList ++ array.span } ∧
      ∀ moved, Entries.findAnchor {} merged = some moved → moved.span ≠ array.span := by
  intro icons array accepted merged
  have hmerged : Entries.findAnchor {} merged =
      some { array with span := ", Star".toList ++ array.span } := by decide +kernel
  refine ⟨by decide +kernel, by decide +kernel, by decide +kernel, hmerged, ?_⟩
  intro moved hmoved
  obtain rfl := Option.some.inj (hmerged.symm.trans hmoved)
  decide +kernel

end Graft.Integrator
