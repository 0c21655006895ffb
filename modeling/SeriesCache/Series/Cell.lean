import SeriesCache.Number.Layout
import SeriesCache.Text.Shown
import SeriesCache.Time.Instant
/-!
# Cells

A cell of a result is null, a truth value, an integer, a float or a text.  A column of a
cached result has one of four types.  Whatever its form, a cell may stand for an instant:
integers count nanoseconds, floats do when they are integers, and texts are read as
timestamps.
-/
namespace SeriesCache

inductive CellType where
  | string
  | int64
  | float64
  | bool
  deriving DecidableEq

namespace CellType

def text : CellType → Text
  | string => "string".toList
  | int64 => "int64".toList
  | float64 => "float64".toList
  | bool => "bool".toList

def all : List CellType := [string, int64, float64, bool]

def ofText? (s : Text) : Option CellType := all.find? fun t => t.text = s

/-- What is said of a text that names no type. -/
def unknown (s : Text) : Text := "unrecognized data type: ".toList ++ s

/-- The names under which an engine reports the types of fields. -/
def engineNames : List (Text × CellType) :=
  [("float".toList, float64), ("integer".toList, int64), ("unsigned".toList, int64),
   ("string".toList, string), ("boolean".toList, bool)]

def ofEngineName? (s : Text) : Option CellType :=
  (engineNames.find? fun n => n.1 = s).map Prod.snd

end CellType

inductive Cell where
  | null
  | bool (value : Bool)
  | int64 (value : Int64)
  | float64 (value : Binary64)
  | string (value : Text)
  deriving DecidableEq

namespace Cell

def type? : Cell → Option CellType
  | null => none
  | bool _ => some .bool
  | int64 _ => some .int64
  | float64 _ => some .float64
  | string _ => some .string

def isNull : Cell → Bool
  | null => true
  | _ => false

/-- The integer equal to a float, clamped to 64 bits. -/
def wholeNumber? (x : Binary64) : Option Int64 :=
  if x.isFinite && x.isIntegral then some x.toInt64 else none

def instant? : Cell → Option Int64
  | int64 n => some n
  | float64 x => wholeNumber? x
  | string s => Instant.read? s
  | null => none
  | bool _ => none

/-- A cell as messages show it, with the name of its form. -/
def shown : Cell → Text
  | null => "Null".toList
  | bool true => "Bool(true)".toList
  | bool false => "Bool(false)".toList
  | int64 n => "Int64(".toList ++ Signed.text n ++ [')']
  | float64 x => "Float64(".toList ++ Layout.quoted.text x ++ [')']
  | string s => "String(".toList ++ Text.shown s ++ [')']

end Cell
end SeriesCache
