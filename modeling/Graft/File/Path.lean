import Graft.Text.Search

/-!
# Paths

A path is a text.  Its segments are what stands between slashes; the empty ones and the dots mean
nothing, except that a dot in front counts.  Paths are joined as texts, and nothing is normalised.

* `components` are the segments that count;
* `ancestors` are the directories that a path is in, the nearest first.
-/

namespace Graft

/-- A path, as it is written. -/
abbrev Path := Text

namespace Path

open Text (splitAt joinWith endsWith)

/-- What a segment of a path stands for. -/
inductive Component where
  /-- The slash in front of an absolute path. -/
  | root
  /-- The dot in front of a relative path. -/
  | current
  | parent
  | normal (name : Text)
  deriving DecidableEq, Repr

def isAbsolute (p : Path) : Bool := p.head? == some '/'

def dot : Text := ['.']

def dots : Text := ['.', '.']

/-- Whether a segment counts; `front` says that the path begins with it. -/
def counts (front : Bool) (segment : Text) : Bool :=
  !segment.isEmpty && (front || segment != dot)

/-- What a segment that counts stands for. -/
def Component.ofSegment (segment : Text) : Component :=
  if segment = dot then .current else if segment = dots then .parent else .normal segment

/-- The segments that count. -/
def countingSegments (front : Bool) : List Text → List Text
  | [] => []
  | s :: rest =>
    if counts front s then s :: countingSegments false rest else countingSegments false rest

def components (p : Path) : List Component :=
  if p.isAbsolute then
    .root :: (countingSegments false (splitAt '/' p)).map Component.ofSegment
  else (countingSegments true (splitAt '/' p)).map Component.ofSegment

/-- The path `q` seen from the directory `p`.  An absolute `q` stays as it is. -/
def join (p q : Path) : Path :=
  if q.isAbsolute then q else if p.isEmpty || endsWith '/' p then p ++ q else p ++ '/' :: q

/-- The beginnings of a list of segments that end in a segment that counts, the shortest first. -/
def stems (front : Bool) : List Text → List (List Text)
  | [] => []
  | s :: rest =>
    let longer := (stems false rest).map (s :: ·)
    if counts front s then [s] :: longer else longer

/-- The directories that a path is in, the nearest first, without what follows the last segment that
counts.  The last one is the root, or the empty path that stands for the working directory. -/
def ancestors (p : Path) : List Path :=
  let (start, segments) :=
    if p.isAbsolute then (['/'], splitAt '/' (p.drop 1)) else ([], splitAt '/' p)
  let own := stems (!p.isAbsolute) segments
  if own.isEmpty then []
  else own.dropLast.reverse.map (fun s => start ++ joinWith ['/'] s) ++ [start]

/-- The directory that a path is in. -/
def parent? (p : Path) : Option Path := p.ancestors.head?

end Path

end Graft
