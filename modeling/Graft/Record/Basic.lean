import Graft.Document.Basic
import Graft.Record.Metadata

/-!
# Records

A record is what a batch needs to know of one document: its place in the batch, its snippets, and
the metadata found in them.
-/

namespace Graft

/-- What a batch needs to know of one document. -/
structure Record where
  /-- The place of the document in its batch, from one. -/
  index : Nat
  importSnippet : Option Text
  routeSnippet : Option Text
  entrySnippet : Option Text
  component : Option Text
  routePath : Option Text
  entryPath : Option Text
  icon : Option Text
  deriving DecidableEq, Repr

/-- Three snippets, all of which are there. -/
structure CompleteSnippets where
  importLine : Text
  route : Text
  entry : Text
  deriving DecidableEq, Repr

/-- The fields that a record lacks, in words. -/
def missingMessage (fields : List SnippetField) : String :=
  String.intercalate ", " (fields.map SnippetField.key)

namespace Record

/-- The record with the given snippets and the metadata found in them. -/
def ofSnippets (index : Nat) (s : Snippets) : Record where
  index := index
  importSnippet := s.importLine
  routeSnippet := s.route
  entrySnippet := s.homeCard
  component := s.importLine.bind Metadata.component?
  routePath := s.route.bind Metadata.routePath?
  entryPath := s.homeCard.bind Metadata.entryPath?
  icon := s.homeCard.bind Metadata.icon?

def ofDocument (index : Nat) (d : Document) : Record := ofSnippets index d.snippets

def snippets (r : Record) : Snippets := ⟨r.importSnippet, r.routeSnippet, r.entrySnippet⟩

def hasNoSnippets (r : Record) : Bool := r.snippets.isEmpty

/-- The fields that the record lacks, in the order of the document. -/
def missing (r : Record) : List SnippetField :=
  SnippetField.all.filter fun f => (r.snippets.get f).isNone

/-- All three snippets, or the fields that are missing. -/
def complete (r : Record) : Except (List SnippetField) CompleteSnippets :=
  match r.importSnippet, r.routeSnippet, r.entrySnippet with
  | some i, some p, some e => .ok ⟨i, p, e⟩
  | _, _, _ => .error r.missing

end Record

end Graft
