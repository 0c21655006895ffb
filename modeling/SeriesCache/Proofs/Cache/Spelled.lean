import SeriesCache.Cache
import SeriesCache.Proofs.Time.Instant
/-!
# Timestamps written as texts

The timestamps of an answer are numbers or texts.  What is stored of it is the same for both: an answer in which each
timestamp is written as a text (`Answer.spelled`) has the payload of the answer (`Payload.encode_spelled`), and the same
keys, which look at no timestamp (`Request.tableKeysOf_spelled`).
-/
namespace SeriesCache

/-! ## Answers -/

/-- A cell that stands for an instant, written as the text of it. -/
def Cell.spelled (cell : Cell) : Cell :=
  match cell.instant? with
  | some t => .string (Instant.text t)
  | none => cell

/-- A row with its timestamp written as text. -/
def Table.spelledRow : Row → Row
  | [] => []
  | time :: cells => time.spelled :: cells

def Table.spelled (t : Table) : Table := { t with rows := t.rows.map spelledRow }

def Answer.spelled (a : Answer) : Answer := { a with tables := a.tables.map Table.spelled }

theorem Table.length_spelledRow (row : Row) : (spelledRow row).length = row.length := by cases row <;> rfl

theorem Table.getElem?_spelledRow (row : Row) (index : Nat) : (spelledRow row)[index + 1]? = row[index + 1]? := by
  cases row <;> rfl

namespace Answer

theorem isEmpty_spelled (a : Answer) : a.spelled.isEmpty = a.isEmpty := by
  obtain ⟨_ | ⟨t, tables⟩, error⟩ := a
  · rfl
  · exact List.isEmpty_map

theorem columns_spelled (a : Answer) : a.spelled.columns = a.columns := by
  obtain ⟨_ | ⟨t, tables⟩, error⟩ := a <;> rfl

theorem rows_spelled (a : Answer) : a.spelled.tables.flatMap Table.rows =
    (a.tables.flatMap Table.rows).map Table.spelledRow := by
  rw [spelled, List.flatMap_map, List.map_flatMap]
  rfl

end Answer

/-! ## Payloads -/

namespace Payload

variable (layout : TextLayout)

theorem timestampBytes_spelled (cell : Cell) : timestampBytes cell.spelled = timestampBytes cell := by
  cases hinstant : cell.instant? with
  | none => rw [Cell.spelled, hinstant]
  | some t =>
    have hspelled : cell.spelled.instant? = some t := by
      rw [Cell.spelled, hinstant]
      exact Instant.read?_text t
    rw [timestampBytes, timestampBytes, hspelled, hinstant]

theorem rowBytes_spelled (types : List CellType) (row : Row) :
    rowBytes layout types (Table.spelledRow row) = rowBytes layout types row := by
  unfold rowBytes
  rw [Table.length_spelledRow]
  cases row with
  | nil => rfl
  | cons time cells =>
    cases types with
    | nil => rfl
    | cons type types => simp only [Table.spelledRow, timestampBytes_spelled]

theorem tableBytes_spelled (t : Table) (key : Key) : tableBytes layout t.spelled key = tableBytes layout t key := by
  have hrows : t.spelled.rows.mapM (rowBytes layout key.columnTypes) = t.rows.mapM (rowBytes layout key.columnTypes) := by
    rw [Table.spelled, List.mapM_map]
    exact congrArg (t.rows.mapM ·) (funext (rowBytes_spelled layout key.columnTypes))
  unfold tableBytes
  simp only [hrows]
  rfl

/-- **The payload of an answer does not tell how its timestamps were written.** -/
theorem encode_spelled (a : Answer) (keys : List Key) : encode layout a.spelled keys = encode layout a keys := by
  have htables (f : Table × Key → Except PayloadError Bytes) (hf : ∀ t key, f (t.spelled, key) = f (t, key)) :
      (a.spelled.tables.zip keys).mapM f = (a.tables.zip keys).mapM f := by
    rw [Answer.spelled, List.zip_map_left, List.mapM_map]
    exact congrArg ((a.tables.zip keys).mapM ·) (funext fun p => hf p.1 p.2)
  have hlength : a.spelled.tables.length = a.tables.length := List.length_map _
  rw [encode, encode, Answer.isEmpty_spelled, hlength, htables _ (tableBytes_spelled layout)]

end Payload

/-! ## Keys -/

namespace Request

variable (r : Request)

theorem observedType?_spelled (a : Answer) (index : Nat) :
    observedType? a.spelled (index + 1) = observedType? a (index + 1) := by
  rw [observedType?, Answer.rows_spelled, List.findSome?_map]
  simp only [Function.comp_def, Table.getElem?_spelledRow]
  rfl

theorem columnsOf_spelled (catalog : Catalog) (a : Answer) : r.columnsOf catalog a.spelled = r.columnsOf catalog a := by
  have htables : a.spelled.tables.isEmpty = a.tables.isEmpty := List.isEmpty_map
  have hfields : r.answerFields a.spelled = r.answerFields a := by rw [answerFields, answerFields, Answer.columns_spelled]
  unfold columnsOf columnType declaredType?
  simp only [htables, Answer.columns_spelled, hfields, observedType?_spelled]

theorem segmentsOf_spelled (a : Answer) : r.segmentsOf a.spelled = r.segmentsOf a := by
  have hsegments : a.spelled.tables.map r.segmentOf = a.tables.map r.segmentOf := by
    rw [Answer.spelled, List.map_map]
    rfl
  unfold segmentsOf
  simp only [Answer.isEmpty_spelled, hsegments]

theorem keyOf_spelled (catalog : Catalog) (a : Answer) : r.keyOf catalog a.spelled = r.keyOf catalog a := by
  rw [keyOf, keyOf, segmentsOf_spelled, columnsOf_spelled]

theorem tableKeysOf_spelled (catalog : Catalog) (a : Answer) :
    r.tableKeysOf catalog a.spelled = r.tableKeysOf catalog a := by
  have hkeys (key : Key) : (a.spelled.tables.map fun t => key.ofSegment (r.segmentOf t)) =
      a.tables.map fun t => key.ofSegment (r.segmentOf t) := by
    rw [Answer.spelled, List.map_map]
    rfl
  unfold tableKeysOf
  simp only [keyOf_spelled, Answer.isEmpty_spelled, hkeys]

end Request

/-! ## Entries -/

namespace Cache

variable {ε σ : Type} (c : Cache ε σ)

theorem entryOf_spelled (r : Request) (a : Answer) : c.entryOf r a.spelled = c.entryOf r a := by
  rw [entryOf, entryOf, Request.keyOf_spelled, Request.tableKeysOf_spelled, Payload.encode_spelled]

theorem keep_spelled (r : Request) (a : Answer) (first last : Int64) (s : CacheState ε σ) :
    c.keep r a.spelled first last s = c.keep r a first last s := by
  have hlength : a.spelled.tables.length = a.tables.length := List.length_map _
  unfold keep
  rw [entryOf_spelled, hlength]

theorem storeAnswer_spelled (q : Text) (a : Answer) (s : CacheState ε σ) :
    c.storeAnswer q a.spelled s = c.storeAnswer q a s := by
  have herror : a.spelled.error = a.error := rfl
  unfold storeAnswer
  simp only [herror, keep_spelled]

/-- **Timestamps read back**: every printed instant is read as that instant, and whatever answer is kept for a request
or stored for a query, the outcome and the state of the cache are those of the answer with its timestamps as texts. -/
theorem timestamps_read_back : (∀ n : Int64, Instant.read? (Instant.text n) = some n) ∧
    (∀ (r : Request) (a : Answer) (first last : Int64) (s : CacheState ε σ),
      c.keep r a.spelled first last s = c.keep r a first last s) ∧
    ∀ (q : Text) (a : Answer) (s : CacheState ε σ), c.storeAnswer q a.spelled s = c.storeAnswer q a s :=
  ⟨Instant.read?_text, keep_spelled c, storeAnswer_spelled c⟩

end Cache
end SeriesCache
