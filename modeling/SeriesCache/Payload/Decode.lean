import SeriesCache.Key.Reader
import SeriesCache.Payload.Basic
/-!
# Reading payloads

Every step takes bytes off the front and tells what it read, or why it could not, together with
the bytes that are left in either case.
-/
namespace SeriesCache.Payload

/-- What a step read, and the bytes it left. -/
abbrev Step (α : Type) := Except PayloadError α × Bytes

/-- So many bytes; when there are fewer, all are left. -/
def take (n : Nat) (part : PayloadPart) (bytes : Bytes) : Step Bytes :=
  match splitBytes? n bytes with
  | some (front, rest) => (.ok front, rest)
  | none => (.error (.truncated part n bytes.length), bytes)

/-! ## Cells -/

def int64Of (bytes : Bytes) : Int64 := (ofBigEndian bytes).toUInt64.toInt64

def floatOf (bytes : Bytes) : Binary64 := ⟨(ofBigEndian bytes).toUInt64⟩

def textOf (bytes : Bytes) : Except PayloadError Text := (Utf8.decode bytes).mapError .badText

def boolOf : Bytes → Except PayloadError Bool
  | [0] => .ok false
  | [1] => .ok true
  | b :: _ => .error (.badBool b)
  | [] => .error (.truncated .bool 1 0)

/-- The bytes of a text. -/
def takeText (layout : TextLayout) (bytes : Bytes) : Step Bytes :=
  match layout with
  | .fixed =>
    let (front, rest) := take fixedWidth .string bytes
    (front.map dropZeros, rest)
  | .counted => match take 2 .stringLength bytes with
    | (.ok count, rest) => take (ofBigEndian count) .string rest
    | (.error e, rest) => (.error e, rest)

def readCell (layout : TextLayout) (type : CellType) (bytes : Bytes) : Step Cell :=
  match type with
  | .bool =>
    let (front, rest) := take 1 .bool bytes
    (front.bind fun b => (boolOf b).map .bool, rest)
  | .int64 =>
    let (front, rest) := take 8 .int64 bytes
    (front.map fun b => .int64 (int64Of b), rest)
  | .float64 =>
    let (front, rest) := take 8 .float64 bytes
    (front.map fun b => .float64 (floatOf b), rest)
  | .string =>
    let (front, rest) := takeText layout bytes
    (front.bind fun b => (textOf b).map .string, rest)

/-! ## Rows -/

/-- What a fault inside rows of a known length says: bytes that end too early there are a wrong
length. -/
def inRows (length : Int64) : PayloadError → PayloadError
  | .truncated _ _ _ => .notWholeRows length
  | e => e

def readCells (layout : TextLayout) (length : Int64) :
    List CellType → Bytes → Except PayloadError (Row × Bytes)
  | [], bytes => .ok ([], bytes)
  | type :: types, bytes => match readCell layout type bytes with
    | (.ok cell, rest) => do
      let (row, rest) ← readCells layout length types rest
      return (cell :: row, rest)
    | (.error e, _) => .error (inRows length e)

def readLineEnd (part : PayloadPart) (bytes : Bytes) : Except PayloadError Bytes :=
  match dropBytes? lineEnd bytes with
  | some rest => .ok rest
  | none => .error (.noTerminator part)

/-- The rows that make up all the bytes.  Each takes a line end at least, so the number of bytes
bounds theirs. -/
def readRowsWithin (layout : TextLayout) (length : Int64) (types : List CellType) :
    Nat → Bytes → Except PayloadError (List Row)
  | _, [] => .ok []
  | 0, _ :: _ => .error (.noTerminator .row)
  | n + 1, bytes => do
    let (row, rest) ← readCells layout length types bytes
    let rest ← readLineEnd .row rest
    let rows ← readRowsWithin layout length types n rest
    return row :: rows

/-! ## Tables -/

/-- The bytes of a key, which end before the first blank that is not escaped, and the bytes
after that blank. -/
def cutKey? : Bytes → Option (Bytes × Bytes)
  | [] => none
  | a :: rest =>
    if a = 32 then some ([], rest)
    else if a = 92 then match rest with
      | [] => none
      | b :: rest => (cutKey? rest).map fun (key, rest) => (a :: b :: key, rest)
    else (cutKey? rest).map fun (key, rest) => (a :: key, rest)

/-- The table that a key and rows make. -/
def tableOf (key : Key) (rows : List Row) : Table where
  name := (key.measurement?).getD []
  tags := Dict.ofList ((key.segments.head?.map Segment.tags).getD [])
  columns := key.columnNames
  rows := rows

def readTable (layout : TextLayout) (bytes : Bytes) : Except PayloadError (Table × Bytes) :=
  match cutKey? bytes with
  | none => .error (.truncated .key (bytes.length + 1) bytes.length)
  | some (keyBytes, rest) => do
    let key ← (Key.read (← textOf keyBytes)).mapError .badKey
    let length ← (take 8 .rowsLength rest).1
    let rest ← readLineEnd .tableHeader (rest.drop 8)
    let length := int64Of length
    if length < 0 then .error (.notWholeRows length)
    else
      let size := length.toInt.toNat
      let rows ← (take size .rows rest).1
      let rest := rest.drop size
      let rows ← readRowsWithin layout length key.columnTypes rows.length rows
      return (tableOf key rows, rest)

def readTablesWithin (layout : TextLayout) : Nat → Bytes → Except PayloadError (List Table)
  | _, [] => .error (.noTerminator .payload)
  | 0, _ :: _ => .error (.noTerminator .payload)
  | n + 1, bytes => match dropBytes? lineEnd bytes with
    | some [] => .ok []
    | some rest => .error (.trailing rest.length)
    | none => do
      let (table, rest) ← readTable layout bytes
      let tables ← readTablesWithin layout n rest
      return table :: tables

/-- The answer that a payload stands for. -/
def decode (layout : TextLayout) (bytes : Bytes) : Except PayloadError Answer :=
  if bytes = emptyAnswer then .ok .empty
  else do return .ofTables (← readTablesWithin layout bytes.length bytes)

end SeriesCache.Payload
