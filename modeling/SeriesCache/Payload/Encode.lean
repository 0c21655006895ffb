import SeriesCache.Payload.Basic
/-!
# Writing payloads
-/
namespace SeriesCache.Payload

/-! ## Cells -/

def int64Bytes (n : Int64) : Bytes := bigEndian 8 n.toUInt64.toNat

def floatBytes (x : Binary64) : Bytes := bigEndian 8 x.bits.toNat

def textBytes : TextLayout → Text → Bytes
  | .fixed, s =>
    let bytes := Utf8.encode (Text.within fixedWidth s)
    bytes ++ List.replicate (fixedWidth - bytes.length) 0
  | .counted, s =>
    let bytes := Utf8.encode (Text.within countedLimit s)
    bigEndian 2 bytes.length ++ bytes

/-- A cell in a column of a type.  Numbers of both kinds go into columns of both kinds, but a
float only into integers when it is one. -/
def cellBytes (layout : TextLayout) (type : CellType) (cell : Cell) : Except PayloadError Bytes :=
  match type, cell with
  | .bool, .bool b => .ok [if b then 1 else 0]
  | .bool, .null => .ok [0]
  | .int64, .int64 n => .ok (int64Bytes n)
  | .int64, .float64 x => match Cell.wholeNumber? x with
    | some n => .ok (int64Bytes n)
    | none => .error (.conversion cell type)
  | .int64, .null => .ok (int64Bytes 0)
  | .float64, .float64 x => .ok (floatBytes x)
  | .float64, .int64 n => .ok (floatBytes (Binary64.ofInt64 n))
  | .float64, .null => .ok (floatBytes .zero)
  | .string, .string s => .ok (textBytes layout s)
  | .string, .null => .ok (textBytes layout [])
  | _, _ => .error (.conversion cell type)

/-! ## Rows, tables and answers -/

def timestampBytes (cell : Cell) : Except PayloadError Bytes :=
  match cell.instant? with
  | some t => .ok (int64Bytes t)
  | none => .error (.conversion cell .int64)

def rowBytes (layout : TextLayout) (types : List CellType) (row : Row) :
    Except PayloadError Bytes :=
  if row.length ≠ types.length then .error (.columnCount types.length row.length)
  else match row, types with
    | time :: cells, _ :: types => do
      let time ← timestampBytes time
      let cells ← (types.zip cells).mapM fun (type, cell) => cellBytes layout type cell
      return time ++ cells.flatten ++ lineEnd
    | _, _ => .ok lineEnd

/-- A table's key and rows.  Rows that no buffer holds are not written. -/
def tableBytes (layout : TextLayout) (table : Table) (key : Key) : Except PayloadError Bytes :=
  let types := key.columnTypes
  if table.columns.length ≠ types.length then
    .error (.columnCount types.length table.columns.length)
  else do
    let rows ← table.rows.mapM (rowBytes layout types)
    let rows := rows.flatten
    if bufferLimit < rows.length then .error (.truncated .rows rows.length bufferLimit)
    else return Utf8.encode key.text ++ Utf8.encode [' '] ++ bigEndian 8 rows.length ++ lineEnd ++ rows

/-- The payload of an answer, with a key for each table. -/
def encode (layout : TextLayout) (answer : Answer) (keys : List Key) :
    Except PayloadError Bytes :=
  if answer.isEmpty then .ok emptyAnswer
  else if keys.length ≠ answer.tables.length then
    .error (.keyCount keys.length answer.tables.length)
  else do
    let tables ← (answer.tables.zip keys).mapM fun (table, key) => tableBytes layout table key
    return tables.flatten ++ lineEnd

end SeriesCache.Payload
