import SeriesCache.Query.Condition
/-!
# SELECT statements

A statement has fields, a source, and up to ten more clauses in one order.  Its printed form
spells keywords in one way, drops blanks, and keeps everything else.
-/
namespace SeriesCache

/-! ## Fields -/

/-- The type a name may be cast to, as in `level::float`. -/
inductive FieldType where
  | float
  | integer
  | unsigned
  | string
  | boolean
  | tag
  | field
  deriving DecidableEq

namespace FieldType

def text : FieldType → Text
  | float => "float".toList
  | integer => "integer".toList
  | unsigned => "unsigned".toList
  | string => "string".toList
  | boolean => "boolean".toList
  | tag => "tag".toList
  | field => "field".toList

def all : List FieldType := [float, integer, unsigned, string, boolean, tag, field]

end FieldType

inductive FieldExpr where
  | wildcard
  | name (name : Text) (type : Option FieldType)
  | call (function : Text) (args : List FieldExpr)
  | literal (value : Literal)

namespace FieldExpr

mutual

def text : FieldExpr → Text
  | wildcard => ['*']
  | name n none => Name.text n
  | name n (some t) => Name.text n ++ ':' :: ':' :: t.text
  | call f args => f ++ '(' :: argsText args ++ [')']
  | literal l => l.text

def argsText : List FieldExpr → Text
  | [] => []
  | [a] => a.text
  | a :: b :: args => a.text ++ ',' :: ' ' :: argsText (b :: args)

end

mutual

def names : FieldExpr → List Text
  | name n _ => [n]
  | call _ args => argsNames args
  | wildcard => []
  | literal _ => []

def argsNames : List FieldExpr → List Text
  | [] => []
  | a :: args => a.names ++ argsNames args

end

mutual

def hasWildcard : FieldExpr → Bool
  | wildcard => true
  | call _ args => argsHaveWildcard args
  | name _ _ => false
  | literal _ => false

def argsHaveWildcard : List FieldExpr → Bool
  | [] => false
  | a :: args => a.hasWildcard || argsHaveWildcard args

end

end FieldExpr

structure Field where
  expr : FieldExpr
  label : Option Text

def Field.text (f : Field) : Text :=
  f.expr.text ++ match f.label with
    | none => []
    | some a => " AS ".toList ++ Name.text a

/-! ## Sources -/

inductive SourceName where
  | name (name : Text)
  | regex (regex : Text)
  deriving DecidableEq

def SourceName.text : SourceName → Text
  | name n => Name.text n
  | regex r => Regex.text r

/-- A measurement, with the database and the retention policy it is looked up in. -/
structure Source where
  database : Option Text
  policy : Option Text
  name : SourceName
  deriving DecidableEq

def Source.text (s : Source) : Text :=
  match s.database, s.policy with
  | none, none => s.name.text
  | some d, none => Name.text d ++ '.' :: '.' :: s.name.text
  | none, some p => Name.text p ++ '.' :: s.name.text
  | some d, some p => Name.text d ++ '.' :: Name.text p ++ '.' :: s.name.text

/-! ## Other clauses -/

inductive Dimension where
  | time (interval : Duration) (offset : Option Duration)
  | tag (name : Text)
  | regex (regex : Text)
  | wildcard
  deriving DecidableEq

def Dimension.text : Dimension → Text
  | time i none => "time(".toList ++ i.text ++ [')']
  | time i (some o) => "time(".toList ++ i.text ++ ',' :: ' ' :: o.text ++ [')']
  | tag n => Name.text n
  | regex r => Regex.text r
  | wildcard => ['*']

/-- What stands in for an interval without points. -/
inductive Fill where
  | null
  | none
  | previous
  | linear
  | value (x : Binary64)
  deriving DecidableEq

def Fill.text : Fill → Text
  | null => "fill(null)".toList
  | none => "fill(none)".toList
  | previous => "fill(previous)".toList
  | linear => "fill(linear)".toList
  | value x => "fill(".toList ++ Layout.plain.text x ++ [')']

inductive Order where
  | ascending
  | descending
  deriving DecidableEq

def Order.text : Order → Text
  | ascending => "ORDER BY TIME ASC".toList
  | descending => "ORDER BY TIME DESC".toList

/-! ## Statements -/

structure Select where
  fields : List Field
  source : Source
  condition : Option Condition
  dimensions : List Dimension
  fill : Option Fill
  order : Option Order
  limit : Option UInt64
  offset : Option UInt64
  seriesLimit : Option UInt64
  seriesOffset : Option UInt64
  zone : Option Text

namespace Select

/-- The first time interval the statement groups by, with its offset. -/
def groupByTime? (s : Select) : Option (Duration × Option Duration) :=
  s.dimensions.findSome? fun
    | .time i o => some (i, o)
    | _ => none

def clause {α : Type} (text : α → Text) : Option α → Text
  | none => []
  | some a => ' ' :: text a

def countClause (keyword : String) : Option UInt64 → Text :=
  clause fun n => keyword.toList ++ ' ' :: Decimal.text n.toNat

def tailText (s : Select) : Text :=
  (if s.dimensions.isEmpty then []
    else " GROUP BY ".toList ++ Text.join ", ".toList (s.dimensions.map Dimension.text))
    ++ clause Fill.text s.fill
    ++ clause Order.text s.order
    ++ countClause "LIMIT" s.limit
    ++ countClause "OFFSET" s.offset
    ++ countClause "SLIMIT" s.seriesLimit
    ++ countClause "SOFFSET" s.seriesOffset
    ++ clause (fun z => "tz(".toList ++ Quoted.text '\'' z ++ [')']) s.zone

def text (s : Select) : Text :=
  "SELECT ".toList ++ Text.join ", ".toList (s.fields.map Field.text)
    ++ " FROM ".toList ++ s.source.text
    ++ clause (fun c => "WHERE ".toList ++ Condition.text c) s.condition
    ++ s.tailText

end Select
end SeriesCache
