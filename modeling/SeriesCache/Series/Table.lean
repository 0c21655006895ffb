import SeriesCache.Dict
import SeriesCache.Series.Cell
/-!
# Tables

A table is one series of a result: the name of its measurement, the tags that tell it from
the others, its columns and its rows.  The first cell of a row is its timestamp.
-/
namespace SeriesCache

abbrev Row := List Cell

structure Table where
  name : Text
  tags : Dict Text
  columns : List Text
  rows : List Row
  deriving DecidableEq

namespace Table

def empty : Table := ⟨[], .empty, [], []⟩

def tagListText (tags : List (Text × Text)) : Text :=
  Text.join [','] (tags.map fun (k, v) => k ++ '=' :: v)

/-- The tags as text, by ascending keys.  Tables of a result are ordered by it. -/
def tagText (t : Table) : Text := tagListText t.tags.entries

def rowInstant? (row : Row) : Option Int64 := row.head?.bind Cell.instant?

/-- The instants of the first and the last row, when both have one. -/
def range? (t : Table) : Option (Int64 × Int64) := do
  let first ← rowInstant? (← t.rows.head?)
  let last ← rowInstant? (← t.rows.getLast?)
  return (first, last)

/-- Whether a row has an instant in the window, ends included. -/
def isWithin (first last : Int64) (row : Row) : Bool :=
  match rowInstant? row with
  | some t => first ≤ t && t ≤ last
  | none => false

def slice (first last : Int64) (t : Table) : Table :=
  { t with rows := t.rows.filter (isWithin first last) }

def restrictTags (keys : List Text) (t : Table) : Table :=
  { t with tags := t.tags.filter (keys.contains ·) }

end Table
end SeriesCache
