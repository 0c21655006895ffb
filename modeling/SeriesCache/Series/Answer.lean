import SeriesCache.Series.Table
import SeriesCache.Text.Sorting
/-!
# Answers

An answer is what an engine or the cache gives back to one query: its tables, and perhaps an
error of the engine.  Tables are ordered by their tags.
-/
namespace SeriesCache

structure Answer where
  tables : List Table
  error : Option Text
  deriving DecidableEq

namespace Answer

def empty : Answer := ⟨[], none⟩

/-- An answer without an error, its tables put in order. -/
def ofTables (tables : List Table) : Answer := ⟨Text.sortOn Table.tagText tables, none⟩

/-- No tables, or no rows in the first one. -/
def isEmpty (a : Answer) : Bool :=
  match a.tables with
  | [] => true
  | t :: _ => t.rows.isEmpty

def columns (a : Answer) : List Text :=
  match a.tables with
  | [] => []
  | t :: _ => t.columns

def measurement? (a : Answer) : Option Text := a.tables.head?.map Table.name

/-- The least window that holds two. -/
def hull (a b : Int64 × Int64) : Int64 × Int64 :=
  (if b.1 < a.1 then b.1 else a.1, if a.2 < b.2 then b.2 else a.2)

/-- The hull of the ranges of the tables that have one. -/
def range? (a : Answer) : Option (Int64 × Int64) :=
  match a.tables.filterMap Table.range? with
  | [] => none
  | r :: rs => some (rs.foldl hull r)

def slice (first last : Int64) (a : Answer) : Answer :=
  { a with tables := (a.tables.map (Table.slice first last)).filter fun t => !t.rows.isEmpty }

/-- The tables with no tags but those of the keys given, put in order again. -/
def restrictTags (keys : List Text) (a : Answer) : Answer :=
  ⟨(ofTables (a.tables.map (Table.restrictTags keys))).tables, a.error⟩

end Answer
end SeriesCache
