import Logo.Source.Rows

/-!
# The index of places

Every word that is read gets a number, its spot, and the index knows in which
text and at which characters each spot lies.  Texts are added one after another,
each followed by its words.  The index only grows: procedures, and complaints
about them, outlive the text that defined them.
-/

namespace Logo.Source

/-- A stretch of characters: from `first` up to but not including `last`.  The
words of a program have no negative offsets, but a host may put in what it
likes. -/
structure Slice where
  first : Int
  last : Int
deriving Repr, DecidableEq

/-- A text, and where it came from if that was a file.  `start` is the first
spot that can lie in it, and `number` tells it from other texts that read the
same. -/
structure Segment where
  number : Nat
  start : Nat
  path : Option String
  text : String
deriving Repr, DecidableEq

structure Place where
  segment : Segment
  slice : Slice
deriving Repr, DecidableEq

inductive LookupFault where
  /-- No word has this spot. -/
  | unknownSpot
  /-- The first and the last spot lie in different texts. -/
  | differentTexts
deriving Repr, DecidableEq

/-- The slices of all spots, and the texts, newest first. -/
structure Index where
  slices : Array Slice
  segments : List Segment
deriving Repr

namespace Index

def startSegment (index : Index) (path : Option String)
    (text : String) : Index :=
  let segment : Segment :=
    ⟨index.segments.length, index.slices.size, path, text⟩
  { index with segments := segment :: index.segments }

def insert (index : Index) (slice : Slice) : Nat × Index :=
  (index.slices.size, { index with slices := index.slices.push slice })

/-- The index knows one built-in place, spot zero, in an empty text. -/
def fresh : Index :=
  ((Index.mk #[] []).startSegment none "").insert ⟨0, 0⟩ |>.2

/-- The newest text that starts at or before a spot.  Spots that count from the
end are looked for in the newest text of all. -/
def segmentOf? (index : Index) (spot : Int) : Option Segment :=
  if spot < 0 then index.segments.head?
  else index.segments.find? fun segment => segment.start ≤ spot

/-- The slice of a spot; a negative one counts from the end. -/
def slice? (index : Index) (spot : Int) : Option Slice :=
  let position := if spot < 0 then spot + index.slices.size else spot
  if position < 0 then none else index.slices[position.toNat]?

def lookup (index : Index) (spot : Int) : Except LookupFault Place :=
  match index.segmentOf? spot, index.slice? spot with
  | some segment, some slice => .ok ⟨segment, slice⟩
  | _, _ => .error .unknownSpot

/-- The place from the start of one spot to the end of another. -/
def lookupSpan (index : Index) (first last : Int) :
    Except LookupFault Place := do
  let left ← index.lookup first
  let right ← index.lookup last
  if left.segment.number = right.segment.number then
    return ⟨left.segment, ⟨left.slice.first, right.slice.last⟩⟩
  else throw .differentTexts

end Index

def Place.rowAndColumn (place : Place) : Int × Int :=
  Source.rowAndColumn place.segment.text.toList place.slice.first

/-- The row in which a place starts, with the place underlined as far as it lies
in that row. -/
def Place.illustrate (place : Place) (caption : String) : String :=
  let (row, column) := place.rowAndColumn
  let text := rowText place.segment.text.toList row.toNat
  let width := (place.slice.last - place.slice.first).toNat
  illustration text column.toNat width (margin row.toNat) caption

/-! ## Paths of files

A path is a list of parts behind a root.  Empty parts and parts that stay where
they are do not count, so a path is written without them. -/

/-- What a path starts from: nothing when it is relative, and otherwise one
slash, except that exactly two slashes are a root of their own. -/
def pathRoot (path : String) : String :=
  match (path.toList.takeWhile (· = '/')).length with
  | 0 => ""
  | 2 => "//"
  | _ => "/"

def pathParts (path : String) : List String :=
  (path.splitOn "/").filter fun part => part ≠ "" ∧ part ≠ "."

def tidyPath (path : String) : String :=
  match pathRoot path ++ "/".intercalate (pathParts path) with
  | "" => "."
  | tidy => tidy

/-- Follows the parts of a path from a folder.  A part can only be looked for in
a known folder. -/
def follow (folders : List (List String)) (here : List String) :
    List String → Option (List String)
  | [] => some here
  | part :: rest =>
    if !folders.contains here then none
    else if part ≠ ".." then follow folders (here ++ [part]) rest
    else if here.isEmpty then none
    else follow folders here.dropLast rest

end Logo.Source
