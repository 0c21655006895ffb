import SeriesCache.Key.Basic
import SeriesCache.Request
/-!
# The key of an answer

A key is built from a request and one of its answers.  What the key says of tags and fields
does not hang on the order in which the query names them: assignments and constraints are
sorted, and each is there once.
-/
namespace SeriesCache

namespace Request

/-! ## Segments -/

/-- The segment of one table: its tags among those grouped by, and every predicate on a tag
that is not grouped by. -/
def segmentOf (r : Request) (t : Table) : Segment :=
  let grouped := t.tags.entries.filter fun e => r.groupTags.contains e.1
  let restricted := r.tagPredicates.filter fun p => !r.groupTags.contains p.name
  Segment.ofAssignments (if t.name.isEmpty then r.measurement else t.name)
    (grouped.map (fun e => ⟨e.1, .eq, e.2⟩) ++ restricted.map fun p => ⟨p.name, p.operator, p.value⟩)

/-- The segments of all tables.  Without groups, neighbours with the same segment share it. -/
def segmentsOf (r : Request) (a : Answer) : List Segment :=
  if a.isEmpty then []
  else
    let segments := a.tables.map r.segmentOf
    if r.groupTags.isEmpty then Text.dropRepeats (fun s t => decide (s = t)) segments else segments

/-! ## Columns -/

/-- Functions with integers for values, whatever they are applied to. -/
def integerFunctions : List Text := ["count".toList]

/-- Functions with floats for values, whatever they are applied to. -/
def floatFunctions : List Text :=
  ["mean".toList, "median".toList, "stddev".toList, "integral".toList, "derivative".toList,
   "non_negative_derivative".toList, "moving_average".toList]

/-- The type of the first cell of a column that is not null. -/
def observedType? (a : Answer) (index : Nat) : Option CellType :=
  (a.tables.flatMap Table.rows).findSome? fun row => row[index]?.bind Cell.type?

/-- The type that the catalog or the function gives the column after so many others. -/
def declaredType? (r : Request) (catalog : Catalog) (a : Answer) (after : Nat) (name : Text) :
    Option CellType :=
  match r.aggregation with
  | some f =>
    if integerFunctions.contains f then some .int64
    else if floatFunctions.contains f then some .float64
    else
      let field := if r.wildcard then (r.answerFields a)[after]?
        else r.fields[after]? <|> r.fields.head?
      field.bind (catalog.fieldType? r.measurement)
  | none =>
    if catalog.isTag r.measurement name then some .string
    else catalog.fieldType? r.measurement name

/-- The type of a column: declared, or else observed, or else a float's. -/
def columnType (r : Request) (catalog : Catalog) (a : Answer) (after : Nat) (name : Text) :
    CellType :=
  ((r.declaredType? catalog a after name) <|> observedType? a (after + 1)).getD .float64

/-- The columns of an answer, or the fields of the query when there are no tables. -/
def columnsOf (r : Request) (catalog : Catalog) (a : Answer) : List Column :=
  if a.tables.isEmpty then
    r.fields.map fun f => ⟨f, (catalog.fieldType? r.measurement f).getD .float64⟩
  else
    a.columns.tail.zipIdx.map fun (name, after) => ⟨name, r.columnType catalog a after name⟩

/-! ## Constraints and keys -/

def constraintOf (p : Predicate) : Constraint := ⟨p.name, p.operator, p.literal, p.type⟩

def constraintsOf (r : Request) : List Constraint :=
  Text.distinctOn Constraint.text (r.fieldPredicates.map constraintOf)

def keyOf (r : Request) (catalog : Catalog) (a : Answer) : Key where
  segments := r.segmentsOf a
  columns := r.columnsOf catalog a
  constraints := r.constraintsOf
  aggregation := r.aggregation
  interval := r.groupInterval

/-- The keys of the tables of an answer in turn; an empty answer has its own key alone. -/
def tableKeysOf (r : Request) (catalog : Catalog) (a : Answer) : List Key :=
  let key := r.keyOf catalog a
  if a.isEmpty then [key] else a.tables.map fun t => key.ofSegment (r.segmentOf t)

end Request
end SeriesCache
