import SeriesCache.Number.Layout
import SeriesCache.Number.Signed
import SeriesCache.Query.Name
import SeriesCache.Time.Duration
/-!
# Literals

Durations, numbers, strings, regular expressions and the two truth values, in the order in
which they are tried.  A number without a fraction and an exponent is an integer of 64 bits,
and a number or duration beyond its range is a fault of the query.
-/
namespace SeriesCache

/-- A number as written in a query. -/
inductive Numeric where
  | integer (value : Int64)
  | float (value : Binary64)
  deriving DecidableEq

inductive Literal where
  | integer (value : Int64)
  | float (value : Binary64)
  | string (value : Text)
  | boolean (value : Bool)
  | duration (value : Duration)
  | regex (value : Text)
  deriving DecidableEq

namespace Literal

def booleanText : Bool → Text
  | true => "true".toList
  | false => "false".toList

/-- A float that is an integer has all its digits and one place, so that it is read as a float
again. -/
def floatText (x : Binary64) : Text :=
  if x.isFinite && x.isIntegral then Layout.exactWhole x else Layout.plain.text x

def text : Literal → Text
  | integer n => Signed.text n
  | float x => floatText x
  | string s => Quoted.text '\'' s
  | boolean b => booleanText b
  | duration d => d.text
  | regex r => Regex.text r

end Literal

/-! ## Durations and counts -/

namespace Duration

open Reader

/-- The name of a unit. -/
def unitName : Reader Unit :=
  exactly "ns".toList <|> exactly "µs".toList <|> exactly "us".toList <|> exactly "ms".toList
    <|> exactly "u".toList <|> exactly "µ".toList <|> exactly "s".toList <|> exactly "m".toList
    <|> exactly "h".toList <|> exactly "d".toList <|> exactly "w".toList

/-- A number with its unit. -/
def term : Reader Unit := do let _ ← digits; unitName

def signedTerms : Reader (List Unit) := do
  let _ ← optional (char '-')
  term
  many term

/-- Everything that looks like a duration: a sign, numbers with units, and no word after. -/
def spelling : Reader Text := do
  let (t, _) ← withText signedTerms
  wordEnd
  return t

def reader : Reader Duration := convert .durationRange spelling read?

end Duration

/-- A natural number below 2^64. -/
def countReader : Reader UInt64 := Reader.convert .countRange Reader.digits Signed.unsigned?

/-! ## Numbers -/

namespace Numeric

/-- A number taken apart: its sign, its digits before and after the point, and its exponent. -/
structure Spelling where
  negative : Bool
  whole : Text
  fraction : Option Text
  exponent : Option Int

open Reader

def fraction : Reader Text := do char '.'; digits

def exponent : Reader Int := do
  char 'e' <|> char 'E'
  let negative ← (do char '-'; return true) <|> (do char '+'; return false) <|> pure false
  let ds ← digits
  return if negative then -(Decimal.value ds : Int) else Decimal.value ds

def spelling : Reader Spelling := do
  let sign ← optional (char '-')
  let whole ← digits
  let fraction ← optional fraction
  let exponent ← optional exponent
  return ⟨sign.isSome, whole, fraction, exponent⟩

def Spelling.value? (n : Spelling) : Option Numeric :=
  match n.fraction, n.exponent with
  | none, none =>
    let whole : Int := Decimal.value n.whole
    (Signed.ofInt? (if n.negative then -whole else whole)).map .integer
  | fraction, exponent =>
    let places := fraction.getD []
    some (.float (Binary64.ofDecimal n.negative (Decimal.value (n.whole ++ places))
      (exponent.getD 0 - places.length)))

def reader : Reader Numeric := convert .numberRange spelling Spelling.value?

def toLiteral : Numeric → Literal
  | integer n => .integer n
  | float x => .float x

/-- The number as a float. -/
def toFloat : Numeric → Binary64
  | integer n => Binary64.ofInt64 n
  | float x => x

end Numeric

/-! ## All literals -/

namespace Literal

open Reader

def booleanReader : Reader Bool :=
  (do word "TRUE".toList; return true) <|> (do word "FALSE".toList; return false)

def reader : Reader Literal :=
  duration <$> Duration.reader
    <|> Numeric.toLiteral <$> Numeric.reader
    <|> string <$> Quoted.reader '\''
    <|> regex <$> Regex.reader
    <|> boolean <$> booleanReader

end Literal
end SeriesCache
