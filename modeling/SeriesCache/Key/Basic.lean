import SeriesCache.Key.Escape
import SeriesCache.Query.Condition
import SeriesCache.Series.Cell
import SeriesCache.Text.Sorting
import SeriesCache.Text.Utf8
/-!
# Keys

A key says what an answer holds, in four sections: the series, each by its measurement and tag
assignments; the columns after the timestamp with their types; the constraints on fields; and
the function and interval of an aggregate.  What is absent is written `empty`.
-/
namespace SeriesCache

def emptyWord : Text := "empty".toList

/-- The longest key there should be, unless another limit is set. -/
def defaultKeyLimit : Nat := 450

/-! ## Sections -/

/-- A tag and what its value is compared with. -/
structure Assignment where
  tag : Text
  operator : Operator
  value : Text
  deriving DecidableEq

def Assignment.text (measurement : Text) (a : Assignment) : Text :=
  Escaped.escape .measurement measurement ++ '.' :: Escaped.escape .name a.tag
    ++ a.operator.text ++ Escaped.escape .name a.value

/-- A series of a measurement. -/
structure Segment where
  measurement : Text
  assignments : List Assignment
  deriving DecidableEq

namespace Segment

/-- The segment with each assignment once, in the order of their texts. -/
def ofAssignments (measurement : Text) (assignments : List Assignment) : Segment :=
  ⟨measurement, Text.distinctOn (Assignment.text measurement) assignments⟩

def tags (s : Segment) : List (Text × Text) :=
  s.assignments.filterMap fun a => if a.operator = .eq then some (a.tag, a.value) else none

def text (s : Segment) : Text :=
  '(' :: (if s.assignments.isEmpty then Escaped.escape .measurement s.measurement ++ '.' :: emptyWord
    else Text.join [','] (s.assignments.map (Assignment.text s.measurement))) ++ [')']

end Segment

structure Column where
  name : Text
  type : CellType
  deriving DecidableEq

def Column.text (c : Column) : Text := Escaped.escape .name c.name ++ '[' :: c.type.text ++ [']']

structure Constraint where
  name : Text
  operator : Operator
  literal : Text
  type : CellType
  deriving DecidableEq

def Constraint.text (c : Constraint) : Text :=
  '(' :: Escaped.escape .name c.name ++ c.operator.text ++ Escaped.escape .name c.literal
    ++ '[' :: c.type.text ++ [']', ')']

/-! ## Keys -/

structure Key where
  segments : List Segment
  columns : List Column
  constraints : List Constraint
  aggregation : Option Text
  interval : Option Text
  deriving DecidableEq

namespace Key

def measurement? (k : Key) : Option Text := k.segments.head?.map Segment.measurement

/-- The types of all columns of a table; the timestamp is an integer. -/
def columnTypes (k : Key) : List CellType := .int64 :: k.columns.map Column.type

def columnNames (k : Key) : List Text := "time".toList :: k.columns.map Column.name

def ofSegment (k : Key) (s : Segment) : Key := { k with segments := [s] }

/-- A section: the word for nothing when there are no items. -/
def sectionText (items : List Text) (separator : Text) : Text :=
  '{' :: (if items.isEmpty then emptyWord else Text.join separator items) ++ ['}']

def segmentsText (k : Key) : Text := sectionText (k.segments.map Segment.text) []

def componentText : Option Text → Text
  | none => emptyWord
  | some s => Escaped.escape .name s

def text (k : Key) : Text :=
  k.segmentsText
    ++ '#' :: sectionText (k.columns.map Column.text) [',']
    ++ '#' :: sectionText (k.constraints.map Constraint.text) []
    ++ '#' :: '{' :: componentText k.aggregation ++ ',' :: componentText k.interval ++ ['}']

end Key

/-! ## Faults -/

/-- What can be wrong with the text of a key. -/
inductive KeyFlaw where
  | sectionCount
  | segmentsNotBraced
  | segmentsNotGroups
  | noMeasurement
  | noOperator
  | unknownOperator
  | columnsNotBraced
  | constraintsNotBraced
  | constraintsNotGroups
  | constraintWithoutOperator
  | constraintUnknownOperator
  | noType
  | openType
  | unknownType
  | aggregateNotBraced
  | aggregateParts
  deriving DecidableEq

def KeyFlaw.message : KeyFlaw → Text
  | sectionCount => "expected four sections".toList
  | segmentsNotBraced => "SM section is not braced".toList
  | segmentsNotGroups => "SM section is not a list of groups".toList
  | noMeasurement => "tag assignment without measurement".toList
  | noOperator => "tag assignment without operator".toList
  | unknownOperator => "unknown tag assignment operator".toList
  | columnsNotBraced => "SF section is not braced".toList
  | constraintsNotBraced => "SP section is not braced".toList
  | constraintsNotGroups => "SP section is not a list of groups".toList
  | constraintWithoutOperator => "predicate without operator".toList
  | constraintUnknownOperator => "unknown predicate operator".toList
  | noType => "missing data type".toList
  | openType => "unterminated data type".toList
  | unknownType => "unknown data type".toList
  | aggregateNotBraced => "SG section is not braced".toList
  | aggregateParts => "SG section must have two components".toList

inductive KeyError where
  | tooLong (length limit : Nat)
  | malformed (flaw : KeyFlaw)
  deriving DecidableEq

def KeyError.message : KeyError → Text
  | tooLong n limit => "semantic key is ".toList ++ Decimal.text n
      ++ " bytes, exceeding the limit of ".toList ++ Decimal.text limit
  | malformed flaw => "malformed semantic key: ".toList ++ flaw.message

/-- The text of a key, unless it takes more bytes than the limit. -/
def Key.textWithin (limit : Nat) (k : Key) : Except KeyError Text :=
  let size := Utf8.size k.text
  if limit < size then .error (.tooLong size limit) else .ok k.text

end SeriesCache
