import SeriesCache.Text
/-!
# Decimal numerals

A natural number is written with its decimal digits and no leading zero (`text`), and any run
of digits has a value (`value`).  A sign is written in front of the digits of the absolute
value.
-/
namespace SeriesCache.Decimal

def text (n : Nat) : Text := Nat.toDigits 10 n

/-- `10 ^ n`, the unit of a digit with `n` digits after it. -/
def tenTo (n : Nat) : Nat := Nat.pow 10 n

def value (digits : Text) : Nat := Nat.ofDigitChars 10 digits 0

def intText : Int → Text
  | .ofNat n => text n
  | .negSucc n => '-' :: text (n + 1)

/-- The digits at the front of a text, and what follows them. -/
def span (s : Text) : Text × Text := (s.takeWhile Char.isDigit, s.dropWhile Char.isDigit)

/-- The number that a text of nothing but digits, at least one, stands for. -/
def nat? (s : Text) : Option Nat :=
  if s ≠ [] ∧ s.all Char.isDigit then some (value s) else none

def int? : Text → Option Int
  | '-' :: s => (nat? s).map fun n => -(n : Int)
  | '+' :: s => (nat? s).map fun n => (n : Int)
  | s => (nat? s).map fun n => (n : Int)

/-- The digits of `n`, padded with zeros on the left to at least `width` of them. -/
def padded (width n : Nat) : Text :=
  List.replicate (width - (text n).length) '0' ++ text n

@[simp] theorem value_text (n : Nat) : value (text n) = n :=
  Nat.ofDigitChars_toDigits (by decide) (by decide)

end SeriesCache.Decimal
