import SeriesCache.Time.Duration
/-!
# Precisions and tolerances

A precision names the unit that timestamps are asked for in.  A tolerance is the widest gap
between two results that are still joined; it is never negative, and every precision is one.
-/
namespace SeriesCache

inductive Precision where
  | nanosecond
  | microsecond
  | millisecond
  | second
  | minute
  | hour
  deriving DecidableEq

namespace Precision

def nanos : Precision → Int64
  | .nanosecond => 1
  | .microsecond => 1000
  | .millisecond => 1000000
  | .second => 1000000000
  | .minute => 60000000000
  | .hour => 3600000000000

def text : Precision → Text
  | .nanosecond => "ns".toList
  | .microsecond => "u".toList
  | .millisecond => "ms".toList
  | .second => "s".toList
  | .minute => "m".toList
  | .hour => "h".toList

def word : Precision → Text
  | .nanosecond => "nanosecond".toList
  | .microsecond => "microsecond".toList
  | .millisecond => "millisecond".toList
  | .second => "second".toList
  | .minute => "minute".toList
  | .hour => "hour".toList

def all : List Precision := [.nanosecond, .microsecond, .millisecond, .second, .minute, .hour]

def ofWord? (s : Text) : Option Precision := all.find? fun p => p.word = s

def labels : List (Text × Precision) :=
  [("n".toList, .nanosecond), ("ns".toList, .nanosecond), ("u".toList, .microsecond),
   ("us".toList, .microsecond), ("µ".toList, .microsecond), ("µs".toList, .microsecond),
   ("ms".toList, .millisecond), ("s".toList, .second), ("m".toList, .minute),
   ("h".toList, .hour)]

def ofLabel? (s : Text) : Option Precision := (labels.find? fun l => l.1 = s).map Prod.snd

/-- What is said of a label that names no precision. -/
def unknownLabel (s : Text) : Text := "unrecognized precision unit: ".toList ++ s

end Precision

/-- The widest gap in nanoseconds between two results that are still joined. -/
structure Tolerance where
  nanos : Int64
  deriving DecidableEq

namespace Tolerance

/-- A negative gap counts as none. -/
def ofNanos (n : Int64) : Tolerance := ⟨if n < 0 then 0 else n⟩

def ofPrecision (p : Precision) : Tolerance := ⟨p.nanos⟩

/-- Whether a window that starts at `first` follows one that ends at `last` closely enough. -/
def admits (tolerance : Tolerance) (last first : Int64) : Bool :=
  last ≤ first &&
    match Signed.sub? first last with
    | some gap => gap ≤ tolerance.nanos
    | none => false

def text (tolerance : Tolerance) : Text := Duration.text ⟨tolerance.nanos⟩

end Tolerance
end SeriesCache
