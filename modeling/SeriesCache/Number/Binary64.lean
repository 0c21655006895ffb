import SeriesCache.Number.Signed
/-!
# Binary floating-point numbers of 64 bits

A number is its bits: a sign, eleven bits of exponent and 52 of significand.  A finite one is
`± significand · 2 ^ exponent` with both parts integers, and everything below computes with
those two, so no operation rests on the machine's arithmetic.

`nearestRatio` is the one rounding step: the magnitude nearest to a quotient of two natural
numbers, where a tie goes to the even significand.  Integers, decimal numerals, products and
quotients are rounded through it.
-/
namespace SeriesCache

structure Binary64 where
  bits : UInt64
  deriving DecidableEq

namespace Binary64

/-! ## Parts of a number -/

def twoTo (n : Nat) : Nat := Nat.pow 2 n

/-- The bit of the sign, `2 ^ 63`. -/
def signBit : Nat := 0x8000000000000000

/-- The leading bit of a significand, `2 ^ 52`, which is not stored. -/
def hiddenBit : Nat := 0x10000000000000

def isNegative (x : Binary64) : Bool := signBit ≤ x.bits.toNat

/-- The bits without the sign; they order the numbers that are not NaN by absolute value. -/
def magnitude (x : Binary64) : Nat := x.bits.toNat % signBit

/-- The magnitude of infinity.  NaNs lie above it, finite numbers below. -/
def infinity : Nat := 0x7FF0000000000000

def isFinite (x : Binary64) : Bool := x.magnitude < infinity

def isInfinite (x : Binary64) : Bool := x.magnitude == infinity

def isNan (x : Binary64) : Bool := infinity < x.magnitude

def isZero (x : Binary64) : Bool := x.magnitude == 0

def significand (x : Binary64) : Nat :=
  if x.magnitude < hiddenBit then x.magnitude else x.magnitude % hiddenBit + hiddenBit

def exponent (x : Binary64) : Int := (max (x.magnitude / hiddenBit) 1 : Nat) - 1075

def ofMagnitude (negative : Bool) (magnitude : Nat) : Binary64 :=
  ⟨(magnitude + if negative then signBit else 0).toUInt64⟩

def zero : Binary64 := ⟨0⟩

def negate (x : Binary64) : Binary64 := ofMagnitude (!x.isNegative) x.magnitude

/-- The absolute value of a finite number as a quotient of natural numbers. -/
def ratio (x : Binary64) : Nat × Nat :=
  (x.significand * twoTo x.exponent.toNat, twoTo (-x.exponent).toNat)

/-! ## Rounding -/

/-- The integer nearest to `num / den`, a tie going to the even one. -/
def roundQuotient (num den : Nat) : Nat :=
  let q := num / den
  let r := num % den
  if den < 2 * r ∨ (2 * r = den ∧ q % 2 = 1) then q + 1 else q

/-- The power of two whose multiples hold the 53 leading bits of `num / den`, or the least
power of two there is for numbers below them all. -/
def scaleOf (num den : Nat) : Int :=
  let k : Int := (num.log2 : Int) - den.log2 - 53
  let k := if 2 * hiddenBit ≤ num * twoTo (-k).toNat / (den * twoTo k.toNat) then k + 1 else k
  max k (-1074)

def nearestRatio (num den : Nat) : Nat :=
  if num = 0 then 0
  else
    let k := scaleOf num den
    let q := roundQuotient (num * twoTo (-k).toNat) (den * twoTo k.toNat)
    min (q + (k + 1074).toNat * hiddenBit) infinity

def ofRatio (negative : Bool) (num den : Nat) : Binary64 :=
  ofMagnitude negative (nearestRatio num den)

def ofInt (n : Int) : Binary64 := ofRatio (n < 0) n.natAbs 1

def ofInt64 (n : Int64) : Binary64 := ofInt n.toInt

/-- The number nearest to `digits · 10 ^ exponent`.  Outside the exponents with any effect the
answer is infinity or zero, whatever the digits. -/
def ofDecimal (negative : Bool) (digits : Nat) (exponent : Int) : Binary64 :=
  let width : Int := (Decimal.text digits).length
  if digits = 0 ∨ exponent + width < -400 then ofMagnitude negative 0
  else if 400 < exponent + width then ofMagnitude negative infinity
  else ofRatio negative (digits * Decimal.tenTo exponent.toNat) (Decimal.tenTo (-exponent).toNat)

/-! ## Arithmetic on finite numbers -/

def mul (x y : Binary64) : Binary64 :=
  let (a, b) := x.ratio
  let (c, d) := y.ratio
  ofRatio (x.isNegative != y.isNegative) (a * c) (b * d)

def div (x y : Binary64) : Binary64 :=
  let (a, b) := x.ratio
  let (c, d) := y.ratio
  ofRatio (x.isNegative != y.isNegative) (a * d) (b * c)

/-! ## Integral parts -/

def isIntegral (x : Binary64) : Bool := x.ratio.1 % x.ratio.2 == 0

/-- The integer part of a finite number, rounded toward zero. -/
def truncate (x : Binary64) : Int :=
  let n : Int := (x.ratio.1 / x.ratio.2 : Nat)
  if x.isNegative then -n else n

/-- The 64-bit integer nearest to the integer part; NaN has zero. -/
def toInt64 (x : Binary64) : Int64 :=
  if x.isNan then 0
  else if x.isInfinite then (if x.isNegative then Int64.minValue else Int64.maxValue)
  else Signed.clamp x.truncate

end Binary64
end SeriesCache
