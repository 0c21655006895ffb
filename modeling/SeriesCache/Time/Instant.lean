import SeriesCache.Number.Signed
import SeriesCache.Time.Calendar
/-!
# Instants

An instant is a count of nanoseconds since 1970-01-01T00:00:00Z in 64 bits.  It is written in
UTC with as few of 0, 3, 6 or 9 places of a second as are exact.  It is read from a count of
nanoseconds, from a date and time with an offset (strict about the number of digits), or from
a date with or without a time in UTC (lenient about digits and blanks).  Second 60 is the
second after 59.
-/
namespace SeriesCache

/-- A time of day; the second may be a leap second. -/
structure Clock where
  hour : Nat
  minute : Nat
  second : Nat
  nanos : Nat
  deriving DecidableEq

namespace Clock

def midnight : Clock := ⟨0, 0, 0, 0⟩

def isValid (c : Clock) : Bool := c.hour ≤ 23 && c.minute ≤ 59 && c.second ≤ 60

end Clock

namespace Instant

/-- The instant of a local date and time, `offset` minutes ahead of UTC. -/
def of? (date : Date) (clock : Clock) (offset : Int) : Option Int64 :=
  if date.isValid && clock.isValid then
    let minutes := date.dayNumber * 1440 + clock.hour * 60 + clock.minute - offset
    Signed.ofInt? ((minutes * 60 + clock.second) * 1000000000 + clock.nanos)
  else none

/-! ## Fields -/

/-- The digits at the front of a text, `limit` of them at most, and what follows. -/
def digitsUpTo : Nat → Text → Text × Text
  | limit + 1, c :: cs =>
    if c.isDigit then
      let (digits, rest) := digitsUpTo limit cs
      (c :: digits, rest)
    else ([], c :: cs)
  | _, s => ([], s)

/-- A number of at least `least` and at most `most` digits. -/
def field? (least most : Nat) (s : Text) : Option (Nat × Text) :=
  let (digits, rest) := digitsUpTo most s
  if digits.length < least then none else some (Decimal.value digits, rest)

def char? (c : Char) : Text → Option Text
  | d :: s => if d = c then some s else none
  | [] => none

/-- The nanoseconds of an optional fraction: a point and at least one digit, of which nine
count. -/
def fraction? : Text → Option (Nat × Text)
  | '.' :: s =>
    let (digits, rest) := digitsUpTo 9 s
    if digits = [] then none
    else some (Decimal.value digits * Decimal.tenTo (9 - digits.length), rest.dropWhile Char.isDigit)
  | s => some (0, s)

/-! ## Dates and times with an offset -/

def strictDate? (s : Text) : Option (Date × Text) := do
  let (year, s) ← field? 4 4 s
  let s ← char? '-' s
  let (month, s) ← field? 2 2 s
  let s ← char? '-' s
  let (day, s) ← field? 2 2 s
  return (⟨year, month, day⟩, s)

def strictClock? (s : Text) : Option (Clock × Text) := do
  let (hour, s) ← field? 2 2 s
  let s ← char? ':' s
  let (minute, s) ← field? 2 2 s
  let s ← char? ':' s
  let (second, s) ← field? 2 2 s
  let (nanos, s) ← fraction? s
  return (⟨hour, minute, second, nanos⟩, s)

/-- Hours and minutes ahead of UTC, in minutes. -/
def hoursAndMinutes? (s : Text) : Option (Nat × Text) := do
  let (hours, s) ← field? 2 2 s
  let s ← char? ':' s
  let (minutes, s) ← field? 2 2 s
  if hours ≤ 23 ∧ minutes ≤ 59 then return (hours * 60 + minutes, s) else none

/-- The offset from UTC in minutes: `Z`, or a sign with hours and minutes.  The minus sign
U+2212 counts as a hyphen. -/
def offset? : Text → Option (Int × Text)
  | 'Z' :: s | 'z' :: s => some (0, s)
  | '+' :: s => (hoursAndMinutes? s).map fun (m, s) => ((m : Int), s)
  | '-' :: s | '\u2212' :: s => (hoursAndMinutes? s).map fun (m, s) => (-(m : Int), s)
  | _ => none

def withOffset? (s : Text) : Option Int64 := do
  let (date, s) ← strictDate? s
  let s ← match s with
    | 'T' :: s | 't' :: s | ' ' :: s => some s
    | _ => none
  let (clock, s) ← strictClock? s
  let (offset, s) ← offset? s
  if s = [] then of? date clock offset else none

/-! ## Dates and times in UTC -/

/-- A number of one or two digits, with blanks in front. -/
def looseField? (s : Text) : Option (Nat × Text) := field? 1 2 (Text.trimStart s)

/-- A year: up to four digits, or a sign and any number of them. -/
def year? (s : Text) : Option (Int × Text) :=
  match Text.trimStart s with
  | '-' :: s => (field? 1 s.length s).map fun (y, s) => (-(y : Int), s)
  | '+' :: s => (field? 1 s.length s).map fun (y, s) => ((y : Int), s)
  | s => (field? 1 4 s).map fun (y, s) => ((y : Int), s)

def looseDate? (s : Text) : Option (Date × Text) := do
  let (year, s) ← year? s
  let s ← char? '-' s
  let (month, s) ← looseField? s
  let s ← char? '-' s
  let (day, s) ← looseField? s
  return (⟨year, month, day⟩, s)

def looseClock? (s : Text) : Option (Clock × Text) := do
  let (hour, s) ← looseField? s
  let s ← char? ':' s
  let (minute, s) ← looseField? s
  let s ← char? ':' s
  let (second, s) ← looseField? s
  let (nanos, s) ← fraction? s
  return (⟨hour, minute, second, nanos⟩, s)

/-- A date alone, or a date and a time parted by blanks, by nothing or by `T`. -/
def inUtc? (s : Text) : Option Int64 := do
  let (date, s) ← looseDate? s
  if s = [] then of? date .midnight 0
  else
    let s := match s with
      | 'T' :: s => s
      | s => s
    let (clock, s) ← looseClock? s
    if s = [] then of? date clock 0 else none

/-- The instant that a whole text stands for, blanks around it aside. -/
def read? (s : Text) : Option Int64 :=
  let s := Text.trim s
  Signed.read? s <|> withOffset? s <|> inUtc? s

/-! ## Printing -/

/-- The places of a second: none, or the first of 3, 6 and 9 digits that is exact. -/
def fractionText (nanos : Nat) : Text :=
  if nanos = 0 then []
  else if nanos % 1000000 = 0 then '.' :: Decimal.padded 3 (nanos / 1000000)
  else if nanos % 1000 = 0 then '.' :: Decimal.padded 6 (nanos / 1000)
  else '.' :: Decimal.padded 9 nanos

def text (instant : Int64) : Text :=
  let seconds := instant.toInt / 1000000000
  let nanos := (instant.toInt % 1000000000).toNat
  let date := Date.ofDayNumber (seconds / 86400)
  let second := (seconds % 86400).toNat
  Decimal.padded 4 date.year.toNat ++ '-' :: Decimal.padded 2 date.month
    ++ '-' :: Decimal.padded 2 date.day ++ 'T' :: Decimal.padded 2 (second / 3600)
    ++ ':' :: Decimal.padded 2 (second / 60 % 60) ++ ':' :: Decimal.padded 2 (second % 60)
    ++ fractionText nanos ++ ['Z']

end Instant
end SeriesCache
