import SeriesCache.Key.Basic
/-!
# Reading keys

The sections of a key are read last section first, then from the first on, and the first flaw
met is the one told.
-/
namespace SeriesCache

namespace Segment

/-- The measurement of one entry of a segment, and its assignment if it has one. -/
def readEntry (s : Text) : Except KeyFlaw (Text × Option Assignment) :=
  match Escaped.cut? (· == '.') s with
  | some (measurement, _ :: rest) =>
    if rest = emptyWord then .ok (Escaped.unescape measurement, none)
    else match Escaped.cut? Escaped.isOperatorChar rest with
      | none => .error .noOperator
      | some (tag, rest) => match Operator.prefix? rest with
        | none => .error .unknownOperator
        | some (operator, value) => .ok (Escaped.unescape measurement,
            some ⟨Escaped.unescape tag, operator, Escaped.unescape value⟩)
  | _ => .error .noMeasurement

/-- A segment has the measurement of its first entry. -/
def read (s : Text) : Except KeyFlaw Segment := do
  let entries ← (Escaped.split ',' s).mapM readEntry
  return ⟨(entries.head?.map Prod.fst).getD [], entries.filterMap Prod.snd⟩

end Segment

def readTyped (s : Text) : Except KeyFlaw (Text × CellType) :=
  match Escaped.cutLast? (· == '[') s with
  | some (name, _ :: type) =>
    if type.getLast? = some ']' then match CellType.ofText? type.dropLast with
      | some t => .ok (Escaped.unescape name, t)
      | none => .error .unknownType
    else .error .openType
  | _ => .error .noType

def Column.read (s : Text) : Except KeyFlaw Column := do
  let (name, type) ← readTyped s
  return ⟨name, type⟩

def Constraint.read (s : Text) : Except KeyFlaw Constraint :=
  match Escaped.cut? Escaped.isOperatorChar s with
  | none => .error .constraintWithoutOperator
  | some (name, rest) => match Operator.prefix? rest with
    | none => .error .constraintUnknownOperator
    | some (operator, rest) => do
      let (literal, type) ← readTyped rest
      return ⟨Escaped.unescape name, operator, literal, type⟩

namespace Key

/-- The items of a section that may be the word for nothing. -/
def readSection {α : Type} (notBraced : KeyFlaw) (parts : Text → Except KeyFlaw (List Text))
    (item : Text → Except KeyFlaw α) (s : Text) : Except KeyFlaw (List α) :=
  match Escaped.braced? s with
  | none => .error notBraced
  | some inner => if inner = emptyWord then .ok [] else do (← parts inner).mapM item

def groups (flaw : KeyFlaw) (s : Text) : Except KeyFlaw (List Text) :=
  match Escaped.groups? s with
  | some groups => .ok groups
  | none => .error flaw

def readSegments : Text → Except KeyFlaw (List Segment) :=
  readSection .segmentsNotBraced (groups .segmentsNotGroups) Segment.read

def readColumns : Text → Except KeyFlaw (List Column) :=
  readSection .columnsNotBraced (fun s => .ok (Escaped.split ',' s)) Column.read

def readConstraints : Text → Except KeyFlaw (List Constraint) :=
  readSection .constraintsNotBraced (groups .constraintsNotGroups) Constraint.read

def readComponent (s : Text) : Option Text :=
  if s = emptyWord then none else some (Escaped.unescape s)

def readAggregate (s : Text) : Except KeyFlaw (Option Text × Option Text) :=
  match Escaped.braced? s with
  | none => .error .aggregateNotBraced
  | some inner => match Escaped.split ',' inner with
    | [aggregation, interval] => .ok (readComponent aggregation, readComponent interval)
    | _ => .error .aggregateParts

def readSections (s : Text) : Except KeyFlaw Key :=
  match Escaped.split '#' s with
  | [segments, columns, constraints, aggregate] => do
    let (aggregation, interval) ← readAggregate aggregate
    return {
      segments := ← readSegments segments
      columns := ← readColumns columns
      constraints := ← readConstraints constraints
      aggregation
      interval }
  | _ => .error .sectionCount

def read (s : Text) : Except KeyError Key := (readSections s).mapError .malformed

end Key
end SeriesCache
