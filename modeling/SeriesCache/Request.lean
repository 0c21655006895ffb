import SeriesCache.Catalog
import SeriesCache.Query.Equality
import SeriesCache.Query.SelectReader
import SeriesCache.Time.Window
/-!
# Requests

A request is a query taken apart into what the cache needs to know of it: the measurement, the
fields and the function of its projection, its predicates on tags and on fields, its time
window, and what it groups by.  The statement itself is kept, so that the query can be asked
again for another window (`inWindow`), or named without its window (`signature`).
-/
namespace SeriesCache

/-- What a query is read against: the schema of the database, and the instant that `now()` stands for.  The instant is
pinned for all that is asked under one context.  Where it is taken from the clock instead, whenever a query is taken
apart, each query has a context of its own, with the same catalog and another instant: what is proved of one query
under any context holds of every one of them, and what is proved of a run of queries holds where the instant is
pinned. -/
structure Context where
  catalog : Catalog
  now : Int64

inductive RequestError where
  | noProjection
  | badSyntax (error : SyntaxError)
  | regexMeasurement (regex : Text)
  | noInstant (operand : Text)
  deriving DecidableEq

namespace RequestError

def message : RequestError → Text
  | noProjection => "query has no SELECT projection".toList
  | badSyntax e => "unable to parse query: ".toList ++ e.message.toList
  | regexMeasurement r => "regular expression measurements are not supported: ".toList ++ r
  | noInstant t => "invalid time literal in condition: ".toList ++ t

end RequestError

/-! ## Predicates -/

/-- A comparison that is not about time.  `literal` is its right side in one spelling, and
`value` the same without quotes. -/
structure Predicate where
  name : Text
  operator : Operator
  literal : Text
  value : Text
  type : CellType
  role : Condition.Role
  deriving DecidableEq

namespace Predicate

/-- The literal, the value and the type of an operand.  One that is no literal is typed by
whether there is a point in it. -/
def operandParts (operand : Operand) : Text × Text × CellType :=
  match operand.expr with
  | .literal (.string s) => (Quoted.text '\'' s, s, .string)
  | .literal (.regex r) => (Regex.text r, Regex.text r, .string)
  | .literal (.boolean b) => (Literal.booleanText b, Literal.booleanText b, .bool)
  | .literal (.float _) => (operand.text, operand.text, .float64)
  | .literal (.integer _) => (operand.text, operand.text, .int64)
  | _ => (operand.text, operand.text, if operand.text.contains '.' then .float64 else .int64)

def ofComparison (c : Comparison) (role : Condition.Role) : Predicate :=
  let (literal, value, type) := operandParts c.operand
  ⟨c.name, c.operator, literal, value, type, role⟩

def text (p : Predicate) : Text :=
  p.name ++ p.operator.text ++ p.literal ++ '[' :: p.type.text ++ [']']

end Predicate

/-! ## What a condition says -/

def timeName : Text := "time".toList

def Comparison.isOnTime (c : Comparison) : Bool := c.isOn timeName

/-- The window where a comparison of time with an instant is true as well.  Comparisons that
bound nothing leave the window as it is. -/
def Window.restrict (w : Window) (operator : Operator) (t : Int64) : Window :=
  match operator with
  | .ge => w.restrictFirst t
  | .gt => w.restrictFirst (Signed.next t)
  | .le => w.restrictLast t
  | .lt => w.restrictLast (Signed.prev t)
  | .eq => (w.restrictFirst t).restrictLast t
  | .ne | .matching | .notMatching => w

/-- What the comparisons met so far say together. -/
structure Findings where
  window : Window
  underOr : Bool
  tagPredicates : List Predicate
  fieldPredicates : List Predicate
  deriving DecidableEq

namespace Findings

def none : Findings := ⟨.unbounded, false, [], []⟩

def meet (context : Context) (measurement : Text) (f : Findings) :
    Condition.Node → Except RequestError Findings
  | .comparison c role underOr =>
    let f := { f with underOr := f.underOr || underOr }
    if c.isOnTime then
      match c.operand.expr.instant? context.now with
      | some t => .ok { f with window := f.window.restrict c.operator t }
      | Option.none => .error (.noInstant c.operand.text)
    else
      let p := Predicate.ofComparison c role
      if context.catalog.isTag measurement c.name then
        .ok { f with tagPredicates := f.tagPredicates ++ [p] }
      else .ok { f with fieldPredicates := f.fieldPredicates ++ [p] }
  | .joined _ _ _ => .ok f
  | .group _ => .ok f

def ofCondition? (context : Context) (measurement : Text) :
    Option Condition → Except RequestError Findings
  | Option.none => .ok none
  | some c => c.walk (meet context measurement) none

end Findings

/-! ## Requests -/

structure Request where
  measurement : Text
  /-- The fields named in the projection, each once and `time` left out. -/
  fields : List Text
  wildcard : Bool
  aggregation : Option Text
  tagPredicates : List Predicate
  fieldPredicates : List Predicate
  window : Window
  groupTags : List Text
  groupInterval : Option Text
  statement : Select
  /-- Whether a comparison stands under an OR. -/
  underOr : Bool
  regexDimension : Bool
  deriving DecidableEq

namespace Request

/-- Names in the order in which each occurs first, without time. -/
def fieldNames (names : List Text) : List Text :=
  names.foldl (fun seen n => if Text.sameWord n timeName || seen.contains n then seen
    else seen ++ [n]) []

/-- The function of the first field that is a call. -/
def aggregationOf (fields : List Field) : Option Text :=
  fields.findSome? fun f => match f.expr with
    | .call function _ => some function
    | _ => none

def intervalText (interval : Duration) : Option Duration → Text
  | none => interval.text
  | some offset =>
    if offset.nanos < 0 then interval.text ++ offset.text
    else interval.text ++ '+' :: offset.text

/-- The interval of the last time dimension. -/
def intervalOf (dimensions : List Dimension) : Option Text :=
  dimensions.foldl (fun found d => match d with
    | .time interval offset => some (intervalText interval offset)
    | _ => found) none

/-- The tag keys that dimensions name or, for a wildcard, all of the measurement, each once and
in ascending order. -/
def groupTagsOf (context : Context) (measurement : Text) (dimensions : List Dimension) :
    List Text :=
  Text.distinctOn id (dimensions.flatMap fun
    | .tag n => [n]
    | .wildcard => context.catalog.tagKeys measurement
    | _ => [])

def hasRegex (dimensions : List Dimension) : Bool :=
  dimensions.any fun
    | .regex _ => true
    | _ => false

def ofSelect (context : Context) (s : Select) : Except RequestError Request :=
  match s.source.name with
  | .regex r => .error (.regexMeasurement (Regex.text r))
  | .name measurement => do
    let findings ← Findings.ofCondition? context measurement s.condition
    return {
      measurement
      fields := fieldNames (s.fields.flatMap fun f => f.expr.names)
      wildcard := s.fields.any fun f => f.expr.hasWildcard
      aggregation := aggregationOf s.fields
      tagPredicates := findings.tagPredicates
      fieldPredicates := findings.fieldPredicates
      window := findings.window
      groupTags := groupTagsOf context measurement s.dimensions
      groupInterval := intervalOf s.dimensions
      statement := s
      underOr := findings.underOr
      regexDimension := hasRegex s.dimensions }

/-- Whether a text, blanks in front aside, starts like a SELECT statement. -/
def startsWithSelect (query : Text) : Bool :=
  (Text.dropPrefixAnyCase? "select".toList (Text.trimStart query)).isSome

def read (context : Context) (query : Text) : Except RequestError Request :=
  if startsWithSelect query then
    match Select.read query with
    | .ok s => ofSelect context s
    | .error e => .error (.badSyntax e)
  else .error .noProjection

/-! ## Windows -/

/-- Whether the rows of a window depend on that window alone, so that answers can be kept and
joined.  Limits, the descending order, zones, OR and groups by expression rule that out, and so
do a qualified measurement and a fill, which the key of an answer does not tell. -/
def isCacheable (r : Request) : Bool :=
  let s := r.statement
  s.source.database.isNone && s.source.policy.isNone
    && (s.fill.isNone || s.fill == some .null)
    && s.limit.isNone && s.offset.isNone && s.seriesLimit.isNone && s.seriesOffset.isNone
    && s.zone.isNone && s.order != some .descending
    && r.window.bounds?.isSome && !r.underOr && !r.regexDimension

def conditionWithoutTime (r : Request) : Option Condition :=
  r.statement.condition.bind (Condition.without timeName)

/-- The query text with every bound of time taken out. -/
def signature (r : Request) : Text :=
  { r.statement with condition := r.conditionWithoutTime }.text

def timeComparison (operator : Operator) (t : Int64) : Condition :=
  .comparison ⟨timeName, operator, .ofExpr (.literal (.integer t))⟩

/-- The condition that holds in a window, both ends included. -/
def windowCondition (first last : Int64) : Condition :=
  .joined (timeComparison .ge first) .and (timeComparison .le last)

/-- A condition, if there is one, and a window.  A join is put in parentheses. -/
def conditionIn (window : Condition) : Option Condition → Condition
  | none => window
  | some (.joined a op b) => .joined (.group (.joined a op b)) .and window
  | some c => .joined c .and window

def inWindow (r : Request) (first last : Int64) : Text :=
  { r.statement with
    condition := some (conditionIn (windowCondition first last) r.conditionWithoutTime) }.text

/-- The fields behind the columns of an answer.  Where a wildcard is aggregated, the engine puts
the function's name in front of each. -/
def answerFields (r : Request) (a : Answer) : List Text :=
  a.columns.tail.map fun column => match r.aggregation with
    | some f => if r.wildcard then (Text.dropPrefix? (f ++ ['_']) column).getD column else column
    | none => column

end Request
end SeriesCache
