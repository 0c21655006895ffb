import SeriesCache.Number.Signed
/-!
# Durations

A duration is a count of nanoseconds.  It is read from numbers each with its unit, as in
`1h30m`, with at most one sign in front, and written with the largest unit that divides it, so
that two spellings of one duration have one printed form.
-/
namespace SeriesCache

structure Duration where
  nanos : Int64
  deriving DecidableEq

namespace Duration

/-- The units a duration may be written with.  A unit stands before its own prefixes. -/
def units : List (Text × Nat) :=
  [("ns".toList, 1), ("µs".toList, 1000), ("us".toList, 1000), ("ms".toList, 1000000),
   ("u".toList, 1000), ("µ".toList, 1000), ("s".toList, 1000000000), ("m".toList, 60000000000),
   ("h".toList, 3600000000000), ("d".toList, 86400000000000), ("w".toList, 604800000000000)]

/-- The units a duration is printed with, largest first. -/
def printedUnits : List (Text × Nat) :=
  [("w".toList, 604800000000000), ("d".toList, 86400000000000), ("h".toList, 3600000000000),
   ("m".toList, 60000000000), ("s".toList, 1000000000), ("ms".toList, 1000000),
   ("u".toList, 1000)]

def unit? (s : Text) : Option Nat := (units.find? fun u => u.1 = s).map Prod.snd

def unitPrefix? (s : Text) : Option (Nat × Text) :=
  units.findSome? fun u => (Text.dropPrefix? u.1 s).map (u.2, ·)

/-- The number and the unit at the front of a text, and what follows. -/
def term? (s : Text) : Option ((Nat × Nat) × Text) :=
  let (digits, rest) := Decimal.span s
  if digits = [] then none
  else (unitPrefix? rest).map fun (unit, rest) => ((Decimal.value digits, unit), rest)

/-- The running total over the terms that make up the whole text.  Every term takes at least
two characters, so the text's length bounds their number. -/
def totalWithin : Nat → Int64 → Text → Option Int64
  | _, total, [] => some total
  | 0, _, _ :: _ => none
  | n + 1, total, s => do
    let ((number, unit), rest) ← term? s
    let number ← Signed.ofInt? number
    let nanos ← Signed.ofInt? (number.toInt * unit)
    totalWithin n (← Signed.add? total nanos) rest

def total? (s : Text) : Option Int64 := if s = [] then none else totalWithin s.length 0 s

/-- The duration that a whole text stands for, unless a part of it exceeds 64 bits. -/
def read? : Text → Option Duration
  | '-' :: s => (total? s).map fun n => ⟨-n⟩
  | s => (total? s).map fun n => ⟨n⟩

def text (d : Duration) : Text :=
  if d.nanos = 0 then "0s".toList
  else
    match printedUnits.find? fun u => d.nanos.toInt % u.2 = 0 with
    | some (name, unit) => Decimal.intText (d.nanos.toInt.tdiv unit) ++ name
    | none => Signed.text d.nanos ++ "ns".toList

end Duration
end SeriesCache
