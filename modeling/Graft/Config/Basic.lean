import Graft.Splice.Settings

/-!
# Configurations

What a batch can be told: the words that anchors are built from, the names of the files it writes,
and whether documents are unwrapped first.  Every setting has a default.
-/

namespace Graft

open Splice (AnchorSettings)

/-- The names of the two patched files. -/
structure OutputNames where
  router : Text := "App.tsx".toList
  listing : Text := "home-index.tsx".toList
  deriving DecidableEq, Repr

/-- The configuration of a batch. -/
structure Config where
  /-- The words that anchors are built from. -/
  anchors : AnchorSettings := {}
  output : OutputNames := {}
  /-- Whether documents are unwrapped before they are read. -/
  sanitizeInput : Bool := true
  deriving DecidableEq, Repr

end Graft
