import SeriesCache.Number.Binary64
/-!
# The fewest digits that read back

Many decimal numerals are read as the same binary number: those in an interval around it,
whose ends count exactly when its significand is even.  `shortest` takes the coarsest decimal
grid with a point in that interval.  A grid with a point there has the point just below or
just above the number there, so two candidates are enough; of two the nearer is taken, and a
tie is the caller's to decide.  Should no grid that is tried have a point there, the answer is
the number with all its places.
-/
namespace SeriesCache

/-- The decimal number `digits · 10 ^ exponent`. -/
structure Numeral where
  digits : Nat
  exponent : Int
  deriving DecidableEq

namespace Binary64

/-- The ends of the interval of the decimals read as `x`, in quarters of its last place.  Below
a power of two the numbers lie twice as dense. -/
def readingEnds (x : Binary64) : Nat × Nat :=
  let m := x.significand
  (4 * m - (if m = hiddenBit ∧ 2 * hiddenBit ≤ x.magnitude then 1 else 2), 4 * m + 2)

/-- Whether the decimal number lies in the interval of those read as `x`. -/
def isReadAs (x : Binary64) (n : Numeral) : Bool :=
  let quarter := x.exponent - 2
  let scaled (bound : Nat) := bound * twoTo quarter.toNat * Decimal.tenTo (-n.exponent).toNat
  let point := n.digits * Decimal.tenTo n.exponent.toNat * twoTo (-quarter).toNat
  let (low, high) := x.readingEnds
  if x.significand % 2 = 0 then scaled low ≤ point && point ≤ scaled high
  else scaled low < point && point < scaled high

/-- How a number halfway between two candidates is written. -/
inductive Tie where
  | up
  | even

def Tie.goesUp : Tie → Nat → Bool
  | .up, _ => true
  | .even, below => below % 2 == 1

/-- The point of the grid of multiples of `10 ^ exponent` that is read as `x`, and of two such
points the nearer. -/
def onGrid? (tie : Tie) (x : Binary64) (exponent : Int) : Option Numeral :=
  let (num, den) := x.ratio
  let num := num * Decimal.tenTo (-exponent).toNat
  let den := den * Decimal.tenTo exponent.toNat
  let below : Numeral := ⟨num / den, exponent⟩
  let above : Numeral := ⟨num / den + 1, exponent⟩
  let rest := num % den
  match x.isReadAs below, x.isReadAs above with
  | true, true =>
    if 2 * rest < den then some below
    else if den < 2 * rest then some above
    else some (if tie.goesUp below.digits then above else below)
  | true, false => some below
  | false, true => some above
  | false, false => none

def expansion (x : Binary64) : Numeral :=
  let places := (-x.exponent).toNat
  ⟨x.ratio.1 * Nat.pow 5 places, -places⟩

/-- A decimal exponent above that of the number, and the next twenty below it. -/
def gridExponents (x : Binary64) : List Int :=
  let width : Int := x.significand.log2 + x.exponent + 1
  let top := width * 30103 / 100000 + 1
  (List.range 21).map fun (i : Nat) => top - i

/-- The shortest numeral read as the absolute value of the finite number `x`. -/
def shortest (tie : Tie) (x : Binary64) : Numeral :=
  if x.isZero then ⟨0, 0⟩ else (x.gridExponents.findSome? (onGrid? tie x)).getD x.expansion

end Binary64
end SeriesCache
