import SeriesCache.Text
/-!
# What can be wrong with a query

A query is either a statement or has one fault at one place.  A fault is a cause; its wording
is `Fault.message`.
-/
namespace SeriesCache

inductive Fault where
  | notSelect
  | trailingText
  | noField
  | noSource
  | noCondition
  | noDimension
  | noDuration
  | noFill
  | noOrder
  | noLimit
  | noOffset
  | noSeriesLimit
  | noSeriesOffset
  | noZone
  | noAlias
  | noFieldType
  | openCall
  | openGroup
  | noOperand
  | noConditionPart
  | durationRange
  | numberRange
  | countRange
  deriving DecidableEq

namespace Fault

def message : Fault → String
  | notSelect => "invalid SELECT statement"
  | trailingText => "invalid SELECT statement, unexpected input"
  | noField => "invalid SELECT statement, expected field"
  | noSource => "invalid SELECT statement, expected FROM clause"
  | noCondition => "invalid WHERE clause, expected conditional expression"
  | noDimension =>
    "invalid GROUP BY clause, expected wildcard, TIME, identifier or regular expression"
  | noDuration => "invalid TIME dimension, expected duration"
  | noFill => "invalid FILL clause, expected NULL, NONE, PREVIOUS, LINEAR, or a number"
  | noOrder => "invalid ORDER BY, expected ASC, DESC or TIME"
  | noLimit => "invalid LIMIT clause, expected unsigned integer"
  | noOffset => "invalid OFFSET clause, expected unsigned integer"
  | noSeriesLimit => "invalid SLIMIT clause, expected unsigned integer"
  | noSeriesOffset => "invalid SOFFSET clause, expected unsigned integer"
  | noZone => "invalid TZ clause, expected string"
  | noAlias => "invalid field alias, expected identifier"
  | noFieldType => "invalid data type for tag or field reference, expected " ++
    "float, integer, unsigned, string, boolean, field, tag"
  | openCall => "invalid function call, expected closing parenthesis"
  | openGroup => "invalid conditional expression, expected closing parenthesis"
  | noOperand => "invalid conditional expression, expected operand"
  | noConditionPart => "invalid conditional expression"
  | durationRange => "invalid duration, value out of range"
  | numberRange => "invalid number"
  | countRange => "unable to parse unsigned integer"

end Fault
end SeriesCache
