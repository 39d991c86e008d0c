import Graft.Record.Basic
import Graft.Text.Search

/-!
# Duplicates

A record is a duplicate if the targets, or the routes staged before it, already show its paths.  The
rules are textual: they would rather refuse a record that is new than splice one twice.
-/

namespace Graft

open Text

/-- The two target texts of a batch. -/
structure Targets where
  router : Text
  listing : Text
  deriving DecidableEq, Repr

/-- The rules that make a record a duplicate. -/
inductive DuplicateRule where
  /-- The router shows the component and the route's path. -/
  | inRouter
  /-- The listing shows the entry's path. -/
  | inListing
  /-- A route staged before shows the route's path. -/
  | stagedInBatch
  deriving DecidableEq, Repr

namespace DuplicateRule

/-- All rules, in the order in which they are tried. -/
def all : List DuplicateRule := [.inRouter, .inListing, .stagedInBatch]

def key : DuplicateRule → String
  | .inRouter => "in_router"
  | .inListing => "in_listing"
  | .stagedInBatch => "staged_in_batch"

def message : DuplicateRule → String
  | .inRouter => "component and route already in router"
  | .inListing => "entry path already in listing"
  | .stagedInBatch => "route path staged earlier in batch"

/-- Whether `holds` of a value, if there is one. -/
def holdsOf (v : Option Text) (holds : Text → Bool) : Bool := v.elim false holds

/-- Whether a record is a duplicate by a rule. -/
def matches? (targets : Targets) (stagedRoutes : List Text) (r : Record) : DuplicateRule → Bool
  | .inRouter =>
    holdsOf r.component (contains · targets.router) &&
      holdsOf r.routePath fun p => contains (Metadata.routeAttribute p) targets.router
  | .inListing =>
    holdsOf r.entryPath fun p => (Metadata.entryKeys p).any fun k => contains k targets.listing
  | .stagedInBatch =>
    holdsOf r.routePath fun p => stagedRoutes.any fun t => contains (Metadata.routeAttribute p) t

/-- The first rule that makes a record a duplicate. -/
def find? (targets : Targets) (stagedRoutes : List Text) (r : Record) : Option DuplicateRule :=
  all.find? (matches? targets stagedRoutes r)

theorem find?_eq_none_iff {targets : Targets} {stagedRoutes : List Text} {r : Record} :
    find? targets stagedRoutes r = none ↔ ∀ rule, matches? targets stagedRoutes r rule = false := by
  rw [find?, List.find?_eq_none]
  constructor
  · intro h rule
    have := h rule (by cases rule <;> decide)
    simpa using this
  · intro h rule _
    simp [h rule]

end DuplicateRule

end Graft
