import SeriesCache.Json.Scanner
import SeriesCache.Series.Answer
import SeriesCache.Time.Precision
/-!
# Answers as JSON

An engine answers in JSON: a list of results, of which the first counts, each a list of series
and perhaps an error.  Fields with nothing in them are left out when written, and may be missing
when read.
-/
namespace SeriesCache

/-! ## Writing -/

namespace Json

def hex4Text (n : Nat) : Text :=
  [Nat.digitChar (n / 4096 % 16), Nat.digitChar (n / 256 % 16), Nat.digitChar (n / 16 % 16),
   Nat.digitChar (n % 16)]

def escapeChar (c : Char) : Text :=
  match c with
  | '"' => ['\\', '"']
  | '\\' => ['\\', '\\']
  | '\x08' => ['\\', 'b']
  | '\x0c' => ['\\', 'f']
  | '\n' => ['\\', 'n']
  | '\r' => ['\\', 'r']
  | '\t' => ['\\', 't']
  | c => if c.toNat < 32 then '\\' :: 'u' :: hex4Text c.toNat else [c]

def stringText (s : Text) : Text := '"' :: s.flatMap escapeChar ++ ['"']

def arrayText {α : Type} (text : α → Text) (items : List α) : Text :=
  '[' :: Text.join [','] (items.map text) ++ [']']

def objectText (members : List (Text × Text)) : Text :=
  '{' :: Text.join [','] (members.map fun (k, v) => stringText k ++ ':' :: v) ++ ['}']

def cellText : Cell → Text
  | .null => "null".toList
  | .bool true => "true".toList
  | .bool false => "false".toList
  | .int64 n => Signed.text n
  | .float64 x => Layout.json.text x
  | .string s => stringText s

/-- A member that is left out when there is nothing in it. -/
def member (present : Bool) (key : String) (text : Text) : List (Text × Text) :=
  if present then [(key.toList, text)] else []

def tableText (t : Table) : Text :=
  objectText (member true "name" (stringText t.name)
    ++ member (!t.tags.isEmpty) "tags"
      (objectText (t.tags.entries.map fun (k, v) => (k, stringText v)))
    ++ member true "columns" (arrayText stringText t.columns)
    ++ member (!t.rows.isEmpty) "values" (arrayText (arrayText cellText) t.rows))

def answerText (a : Answer) : Text :=
  let result := objectText (member true "statement_id" ['0']
    ++ member (!a.tables.isEmpty) "series" (arrayText tableText a.tables)
    ++ member a.error.isSome "error" (stringText (a.error.getD [])))
  objectText (member true "results" (arrayText id [result]))

end Json

/-! ## Reading -/

namespace JsonReader

/-- A field that may be there once. -/
def once {α : Type} (known : Option α) (p : JsonReader α) : JsonReader α :=
  if known.isSome then throw .wrongData else do colon; p

def numberCell : Number → Cell
  | .natural n => if n < 0x8000000000000000 then .int64 (Int64.ofNat n) else .float64 (Binary64.ofInt n)
  | .negative n => .int64 (Int64.ofInt (-n))
  | .float x => .float64 x

/-- A cell, or nothing for an array or object; `inner` reads what is in one, if there may be
another. -/
def valueWith (inner : Option (JsonReader (Option Cell))) : JsonReader (Option Cell) := do
  match ← peek with
  | 'n' => skip; letters "ull".toList; return some .null
  | 't' => skip; letters "rue".toList; return some (.bool true)
  | 'f' => skip; letters "alse".toList; return some (.bool false)
  | '"' => skip; return some (.string (← stringBody true))
  | '[' => match inner with
    | none => throw .badSyntax
    | some inner => skip; let _ ← items inner; return none
  | '{' => match inner with
    | none => throw .badSyntax
    | some inner =>
      skip
      members (stringBody true) (fun _ _ => do colon; let _ ← inner) ()
      return none
  | c =>
    if c = '-' ∨ c.isDigit then return some (numberCell (← numberFrom c)) else throw .badSyntax

/-- Any value, with arrays and objects nested so deep at most. -/
def value : Nat → JsonReader (Option Cell)
  | 0 => valueWith none
  | depth + 1 => valueWith (some (value depth))

def cell (depth : Nat) : JsonReader Cell := do
  match ← value depth with
  | some c => return c
  | none => throw .wrongData

/-- The arrays and objects that a text may nest. -/
def greatestDepth : Nat := 127

structure TableFields where
  name : Option Text
  tags : Option (Dict Text)
  columns : Option (List Text)
  rows : Option (List Row)

def tags : JsonReader (Dict Text) := do
  if (← peek) = '{' then
    skip
    members (stringBody true) (fun (d : Dict Text) k => do colon; return d.insert k (← string))
      .empty
  else reject

def table (depth : Nat) : JsonReader Table := do
  let rows := array (array (cell (greatestDepth - depth - 3)))
  let fields ← record
    [fun t => do return { t with name := some (← string) },
     fun t => do return { t with tags := some (← tags) },
     fun t => do return { t with columns := some (← array string) },
     fun t => do return { t with rows := some (← rows) }]
    (fun t key =>
      if key = "name".toList then do return { t with name := some (← once t.name string) }
      else if key = "tags".toList then do return { t with tags := some (← once t.tags tags) }
      else if key = "columns".toList then do
        return { t with columns := some (← once t.columns (array string)) }
      else if key = "values".toList then do return { t with rows := some (← once t.rows rows) }
      else do colon; ignoreValue; return t)
    (⟨none, none, none, none⟩ : TableFields)
  return ⟨fields.name.getD [], fields.tags.getD .empty, fields.columns.getD [],
    fields.rows.getD []⟩

structure ResultFields where
  statement : Option Nat
  series : Option (List Table)
  error : Option (Option Text)

def statementId : JsonReader Nat := do
  let c ← peek
  if c = '-' ∨ c.isDigit then match ← numberFrom c with
    | .natural n => return n
    | _ => throw .wrongData
  else reject

def optionalString : JsonReader (Option Text) := do
  if (← peek) = 'n' then skip; letters "ull".toList; return none
  return some (← string)

def result : JsonReader ResultFields :=
  record
    [fun r => do return { r with statement := some (← statementId) },
     fun r => do return { r with series := some (← array (table 4)) },
     fun r => do return { r with error := some (← optionalString) }]
    (fun r key =>
      if key = "statement_id".toList then do
        return { r with statement := some (← once r.statement statementId) }
      else if key = "series".toList then do
        return { r with series := some (← once r.series (array (table 4))) }
      else if key = "error".toList then do
        return { r with error := some (← once r.error optionalString) }
      else do colon; ignoreValue; return r)
    ⟨none, none, none⟩

def results : JsonReader (List ResultFields) := do
  let found ← record
    [fun _ => do return some (← array result)]
    (fun known key =>
      if key = "results".toList then do return some (← once known (array result))
      else do colon; ignoreValue; return known)
    none
  return found.getD []

/-- A name of one of some things: a string, or an object with the name as its one key and null
behind it.  Anything else in the place of the string or the key is no name at all. -/
def named {α : Type} (of? : Text → Option α) : JsonReader α := do
  match ← peek with
  | '"' => skip; find (← stringBody true)
  | '{' =>
    skip
    if (← peek) ≠ '"' then throw .badSyntax
    skip
    let a ← find (← stringBody true)
    colon
    if (← peek) = 'n' then skip; letters "ull".toList else reject
    if (← peek) = '}' then skip; return a
    throw .badSyntax
  | _ => throw .badSyntax
where
  find (s : Text) : JsonReader α := match of? s with
    | some a => return a
    | none => throw .wrongData

end JsonReader

namespace Json

def readCell (s : Text) : Except JsonFault Cell := JsonReader.run (JsonReader.cell 127) s

def readTable (s : Text) : Except JsonFault Table := JsonReader.run (JsonReader.table 0) s

def readPrecision (s : Text) : Except JsonFault Precision :=
  JsonReader.run (JsonReader.named Precision.ofWord?) s

def readCellType (s : Text) : Except JsonFault CellType :=
  JsonReader.run (JsonReader.named CellType.ofText?) s

/-- The answer that a JSON text holds: its first result, or an empty one. -/
def readAnswer (s : Text) : Except JsonFault Answer := do
  match ← JsonReader.run JsonReader.results s with
  | [] => return .empty
  | r :: _ => return { Answer.ofTables (r.series.getD []) with error := r.error.getD none }

end Json
end SeriesCache
