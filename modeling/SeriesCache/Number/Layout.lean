import SeriesCache.Number.Shortest
/-!
# How a floating-point number is laid out

The digits are always the shortest that read back; three formats differ in where they leave
positional notation, whether a whole number keeps `.0`, how the exponent is written, what
infinity and NaN are called, and which way a tie between two shortest numerals goes.  The
choices of a format are one record.  `exactWhole` is the fourth way of writing: all the digits
of a number that is an integer.
-/
namespace SeriesCache

structure Layout where
  /-- Whether `d.ddd · 10 ^ e` is written without an exponent. -/
  positional : Int → Bool
  /-- Whether a whole number written without an exponent ends in `.0`. -/
  wholeHasPlace : Bool
  /-- Whether an exponent that is not negative has a plus sign. -/
  exponentHasPlus : Bool
  nan : Text
  infinite : Bool → Text
  tie : Binary64.Tie

namespace Layout

/-- Plain numbers have no exponent, and whole ones no decimal point. -/
def plain : Layout where
  positional _ := true
  wholeHasPlace := false
  exponentHasPlus := false
  nan := "NaN".toList
  infinite negative := if negative then "-inf".toList else "inf".toList
  tie := .up

/-- Quoted values of messages keep a decimal place, and have an exponent from `1e16` on and
below `1e-4`. -/
def quoted : Layout where
  positional e := -4 ≤ e && e < 16
  wholeHasPlace := true
  exponentHasPlus := false
  nan := "NaN".toList
  infinite negative := if negative then "-inf".toList else "inf".toList
  tie := .up

/-- JSON numbers keep a decimal place, and have a signed exponent from `1e16` on and below
`1e-5`.  What is not finite is null. -/
def json : Layout where
  positional e := -5 ≤ e && e < 16
  wholeHasPlace := true
  exponentHasPlus := true
  nan := "null".toList
  infinite _ := "null".toList
  tie := .even

def zeros (n : Nat) : Text := List.replicate n '0'

/-- The digits with the decimal point where the exponent puts it. -/
def withPoint (layout : Layout) (digits : Text) (exponent : Int) : Text :=
  if 0 ≤ exponent then
    digits ++ zeros exponent.toNat ++ (if layout.wholeHasPlace then ['.', '0'] else [])
  else
    let places := (-exponent).toNat
    if places < digits.length then
      digits.take (digits.length - places) ++ '.' :: digits.drop (digits.length - places)
    else '0' :: '.' :: zeros (places - digits.length) ++ digits

/-- One digit, the others behind a point, and the exponent. -/
def withExponent (layout : Layout) (digits : Text) (exponent : Int) : Text :=
  let mantissa := match digits with
    | d :: d' :: ds => d :: '.' :: d' :: ds
    | ds => ds
  let plus := if layout.exponentHasPlus && 0 ≤ exponent then ['+'] else []
  mantissa ++ 'e' :: plus ++ Decimal.intText exponent

def numeral (layout : Layout) (n : Numeral) : Text :=
  let digits := Decimal.text n.digits
  let leading := n.exponent + digits.length - 1
  if n.digits = 0 || layout.positional leading then layout.withPoint digits n.exponent
  else layout.withExponent digits leading

def text (layout : Layout) (x : Binary64) : Text :=
  if x.isNan then layout.nan
  else if x.isInfinite then layout.infinite x.isNegative
  else (if x.isNegative then ['-'] else []) ++ layout.numeral (x.shortest layout.tie)

/-- All digits of a finite number that is an integer, with one decimal place. -/
def exactWhole (x : Binary64) : Text :=
  (if x.isNegative then ['-'] else []) ++ Decimal.text (x.ratio.1 / x.ratio.2) ++ ['.', '0']

end Layout
end SeriesCache
