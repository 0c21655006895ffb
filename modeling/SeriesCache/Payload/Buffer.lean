import SeriesCache.Payload.Encode
/-!
# Cells in a buffer

Cells can also be put into a buffer one by one, behind what it has.  What a step has put stays when a later one fails,
so a cell is put in whole or not at all only because nothing is put before it is known to fit its column.  A text that
is too long is cut in bytes, at the last place up to the limit that is not inside a character.
-/
namespace SeriesCache

namespace Utf8

/-- A byte inside a character, behind its first one. -/
def isContinuation (b : UInt8) : Bool := 0x80 ≤ b.toNat && b.toNat < 0xC0

/-- Whether a place in the bytes of a text is between two characters or at an end. -/
def isBoundary (bytes : Bytes) (place : Nat) : Bool :=
  place == 0 || match bytes[place]? with
    | some b => !isContinuation b
    | none => place == bytes.length

/-- The last such place up to a given one. -/
def boundaryUpTo (bytes : Bytes) : Nat → Nat
  | 0 => 0
  | place + 1 => if isBoundary bytes (place + 1) then place + 1 else boundaryUpTo bytes place

/-- The bytes of a text, cut to fit. -/
def cut (limit : Nat) (bytes : Bytes) : Bytes :=
  if bytes.length ≤ limit then bytes else bytes.take (boundaryUpTo bytes limit)

end Utf8

namespace Payload

/-- Steps that put bytes into a buffer and may fail. -/
abbrev Writer := ExceptT PayloadError (StateM Bytes)

/-- What a step says, and the buffer behind it. -/
def Writer.on (step : Writer Unit) (buffer : Bytes) : Except PayloadError Unit × Bytes := step.run.run buffer

def put (bytes : Bytes) : Writer Unit := modify (· ++ bytes)

def putText (layout : TextLayout) (s : Text) : Writer Unit :=
  match layout with
  | .fixed => do
    let bytes := Utf8.cut fixedWidth (Utf8.encode s)
    put bytes
    put (List.replicate (fixedWidth - bytes.length) 0)
  | .counted => do
    let bytes := Utf8.cut countedLimit (Utf8.encode s)
    put (bigEndian 2 bytes.length)
    put bytes

/-- A cell, in a column of a type. -/
def putCell (layout : TextLayout) (type : CellType) (cell : Cell) : Writer Unit :=
  match type, cell with
  | .bool, .bool b => put [if b then 1 else 0]
  | .bool, .null => put [0]
  | .int64, .int64 n => put (int64Bytes n)
  | .int64, .float64 x => match Cell.wholeNumber? x with
    | some n => put (int64Bytes n)
    | none => throw (.conversion cell type)
  | .int64, .null => put (int64Bytes 0)
  | .float64, .float64 x => put (floatBytes x)
  | .float64, .int64 n => put (floatBytes (Binary64.ofInt64 n))
  | .float64, .null => put (floatBytes .zero)
  | .string, .string s => putText layout s
  | .string, .null => putText layout []
  | _, _ => throw (.conversion cell type)

end Payload
end SeriesCache
