import SeriesCache.Query.Select
import SeriesCache.Text.Utf8
/-!
# Reading statements

A statement is read clause by clause in the order of its printed form; each clause is there or
not, and once its keyword is there the rest of it has to be.  A fault is placed by the number
of UTF-8 bytes in front of it.
-/
namespace SeriesCache

open Reader

/-! ## Fields -/

namespace FieldExpr

def typeReader : Reader FieldType := fun s =>
  match FieldType.all.findSome? fun t => match word t.text s with
      | .found _ rest => some (t, rest)
      | _ => none with
  | some (t, rest) => .found t rest
  | none => .refused

/-- A call; the function's name is kept in lower case. -/
def callReader (arg : Reader FieldExpr) : Reader FieldExpr := do
  let function ← Name.bare
  blanks; char '('
  let args ← separated comma (do blanks; arg) <|> pure []
  must .openCall (do blanks; char ')')
  return call (Text.lower function) args

def nameReader : Reader FieldExpr := do
  let n ← Name.reader
  let type ← optional (do
    exactly "::".toList
    must .noFieldType typeReader)
  return name n type

/-- A field's expression with calls nested at most so deep. -/
def readerWithin : Nat → Reader FieldExpr
  | 0 => refuse
  | depth + 1 =>
    callReader (readerWithin depth)
      <|> (do char '*'; return wildcard)
      <|> literal <$> Literal.reader
      <|> nameReader

def reader : Reader FieldExpr := fun s => readerWithin (s.length + 1) s

end FieldExpr

def Field.reader : Reader Field := do
  blanks
  let expr ← FieldExpr.reader
  let label ← optional (do
    someBlanks; word "AS".toList
    must .noAlias Name.reader)
  return ⟨expr, label⟩

/-! ## Sources -/

namespace Source

/-- The database and policy in front of a measurement's name. -/
def qualifier : Reader (Option Text × Option Text) :=
  (do
    let d ← Name.reader
    char '.'
    let p ← Name.reader
    char '.'
    return (some d, some p))
  <|> (do
    let d ← Name.reader
    exactly "..".toList
    return (some d, none))
  <|> (do
    let p ← Name.reader
    char '.'
    return (none, some p))

def reader : Reader Source := do
  let (database, policy) ← qualifier <|> pure (none, none)
  let name ← SourceName.name <$> Name.reader <|> SourceName.regex <$> Regex.reader
  return ⟨database, policy, name⟩

end Source

/-! ## Other clauses -/

namespace Dimension

def timeReader : Reader Dimension := do
  word "TIME".toList; blanks; char '('
  must .noDuration do
    blanks
    let interval ← Duration.reader
    let offset ← optional (do blanks; char ','; blanks; Duration.reader)
    blanks; char ')'
    return time interval offset

def reader : Reader Dimension :=
  timeReader
    <|> (do char '*'; return wildcard)
    <|> regex <$> Regex.reader
    <|> tag <$> Name.reader

def clauseReader : Reader (List Dimension) := do
  word "GROUP".toList; someBlanks; word "BY".toList
  must .noDimension (separated comma (do blanks; reader))

end Dimension

def Fill.reader : Reader Fill := do
  word "FILL".toList; blanks
  must .noFill (parenthesized
    ((do word "NULL".toList; return null)
      <|> (do word "NONE".toList; return none)
      <|> (do word "PREVIOUS".toList; return previous)
      <|> (do word "LINEAR".toList; return linear)
      <|> (fun n => value n.toFloat) <$> Numeric.reader))

namespace Order

def directionReader : Reader Order := do
  someBlanks
  (do word "ASC".toList; return ascending) <|> (do word "DESC".toList; return descending)

def reader : Reader Order := do
  word "ORDER".toList; someBlanks; word "BY".toList
  must .noOrder (directionReader <|> (do
    someBlanks; word "TIME".toList
    directionReader <|> pure ascending))

end Order

namespace Select

def countReader (keyword : String) (fault : Fault) : Reader UInt64 := do
  word keyword.toList; someBlanks
  must fault SeriesCache.countReader

def zoneReader : Reader Text := do
  word "TZ".toList; blanks
  must .noZone (parenthesized (Quoted.reader '\''))

def clauseReader {α : Type} (p : Reader α) : Reader (Option α) :=
  optional (do someBlanks; p)

/-- What the word SELECT, with blanks in front, leaves.  A text without it is at fault after
the blanks, and one where a longer word starts with it after the six letters. -/
def keywordReader : Reader Unit := do
  blanks
  must .notSelect fun s => match Text.dropPrefixAnyCase? "SELECT".toList s with
    | some rest => must .notSelect wordEnd rest
    | none => .refused

def reader : Reader Select := do
  keywordReader
  let fields ← must .noField (do someBlanks; separated comma Field.reader)
  let source ← must .noSource (do
    someBlanks; word "FROM".toList; blanks
    Source.reader)
  let condition ← optional (do
    someBlanks; word "WHERE".toList; blanks
    must .noCondition Condition.reader)
  let dimensions ← clauseReader Dimension.clauseReader
  let fill ← clauseReader Fill.reader
  let order ← clauseReader Order.reader
  let limit ← clauseReader (countReader "LIMIT" .noLimit)
  let offset ← clauseReader (countReader "OFFSET" .noOffset)
  let seriesLimit ← clauseReader (countReader "SLIMIT" .noSeriesLimit)
  let seriesOffset ← clauseReader (countReader "SOFFSET" .noSeriesOffset)
  let zone ← clauseReader zoneReader
  return { fields, source, condition, dimensions := dimensions.getD [], fill, order, limit,
           offset, seriesLimit, seriesOffset, zone }

/-- The end of the text, after blanks and at most one semicolon. -/
def endReader : Reader Unit := do
  blanks
  let _ ← optional (char ';')
  blanks
  fun s => if s = [] then .found () [] else .refused

end Select

/-- A fault of a query, with the number of bytes in front of it. -/
structure SyntaxError where
  fault : Fault
  position : Nat
  deriving DecidableEq

def SyntaxError.message (e : SyntaxError) : String :=
  e.fault.message ++ " at pos " ++ String.ofList (Decimal.text e.position)

/-- The statement that a whole text stands for. -/
def Select.read (query : Text) : Except SyntaxError Select :=
  let errorAt (fault : Fault) (rest : Text) : SyntaxError :=
    ⟨fault, Utf8.size query - Utf8.size rest⟩
  match (do let s ← reader; must .trailingText endReader; return s : Reader Select) query with
  | .found s _ => .ok s
  | .refused => .error (errorAt .notSelect query)
  | .failed fault rest => .error (errorAt fault rest)

end SeriesCache
