import SeriesCache.Key.Basic
import SeriesCache.Payload.Bytes
import SeriesCache.Series.Answer
/-!
# Payloads

A payload is an answer in bytes.  Each table is its key, a blank, the length of its rows in
eight bytes and a line end; then come the rows, each cell as wide as its column's type says,
each row with a line end.  One more line end closes the payload.  An empty answer is a phrase
of its own.

The timestamp is written in nanoseconds whatever its form, and null as the zero of its column.
-/
namespace SeriesCache

/-- How texts are written. -/
inductive TextLayout where
  /-- In 25 bytes: cut to fit, or filled up with zeros. -/
  | fixed
  /-- With the number of their bytes in front, in two bytes. -/
  | counted
  deriving DecidableEq

/-- The parts of a payload that can be missing. -/
inductive PayloadPart where
  | bool
  | int64
  | float64
  | string
  | stringLength
  | key
  | rowsLength
  | rows
  | row
  | tableHeader
  | payload
  deriving DecidableEq

def PayloadPart.text : PayloadPart → Text
  | bool => "bool".toList
  | int64 => "int64".toList
  | float64 => "float64".toList
  | string => "string".toList
  | stringLength => "string length".toList
  | key => "semantic key".toList
  | rowsLength => "row data length".toList
  | rows => "row data".toList
  | row => "row".toList
  | tableHeader => "table header".toList
  | payload => "payload".toList

inductive PayloadError where
  | keyCount (keys tables : Nat)
  | columnCount (expected actual : Nat)
  | conversion (cell : Cell) (type : CellType)
  | truncated (part : PayloadPart) (needed remaining : Nat)
  | notWholeRows (length : Int64)
  | noTerminator (part : PayloadPart)
  | badKey (error : KeyError)
  | badBool (byte : UInt8)
  | badText (flaw : Utf8.Flaw)
  | trailing (length : Nat)
  deriving DecidableEq

namespace PayloadError

def flawText (flaw : Utf8.Flaw) : Text :=
  match flaw.length with
  | some n => "invalid utf-8 sequence of ".toList ++ Decimal.text n ++ " bytes from index ".toList
      ++ Decimal.text flaw.index
  | none => "incomplete utf-8 byte sequence from index ".toList ++ Decimal.text flaw.index

/-- A byte in two hexadecimal digits. -/
def hexText (b : UInt8) : Text :=
  [Nat.digitChar (b.toNat / 16), Nat.digitChar (b.toNat % 16)]

def message : PayloadError → Text
  | keyCount keys tables => Decimal.text keys ++ " semantic keys given for ".toList
      ++ Decimal.text tables ++ " tables".toList
  | columnCount expected actual => "expected ".toList ++ Decimal.text expected
      ++ " columns, found ".toList ++ Decimal.text actual
  | conversion cell type => "cannot encode ".toList ++ cell.shown ++ " as ".toList ++ type.text
  | truncated part needed remaining => "truncated payload reading ".toList ++ part.text
      ++ ": needed ".toList ++ Decimal.text needed ++ " bytes, ".toList
      ++ Decimal.text remaining ++ " remaining".toList
  | notWholeRows length => "row data of ".toList ++ Signed.text length
      ++ " bytes does not hold whole rows".toList
  | noTerminator part => "missing terminator after ".toList ++ part.text
  | badKey e => "invalid semantic key in payload: ".toList ++ e.message
  | badBool b => "invalid bool byte 0x".toList ++ hexText b
  | badText flaw => "invalid UTF-8 in payload: ".toList ++ flawText flaw
  | trailing n => Decimal.text n ++ " trailing bytes after end of payload".toList

end PayloadError

namespace Payload

/-- The payload of an empty answer. -/
def emptyAnswer : Bytes := Utf8.encode "empty response".toList

def lineEnd : Bytes := [13, 10]

/-- The bytes that a text takes in the fixed layout. -/
def fixedWidth : Nat := 25

/-- The most bytes that a text can have in the counted layout. -/
def countedLimit : Nat := 65535

/-- The most bytes that a buffer holds, so that their number is one of 64 bits, signed. -/
def bufferLimit : Nat := 0x7FFFFFFFFFFFFFFF

end Payload
end SeriesCache
