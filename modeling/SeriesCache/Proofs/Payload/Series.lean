import Mathlib.Data.List.Forall2
import SeriesCache.Key.Build
import SeriesCache.Proofs.Lists
import SeriesCache.Proofs.Payload.RoundTrip
import SeriesCache.Proofs.Text.Sorting
/-!
# Series read back

A request stores an answer under keys of its own making, which add its predicates on tags to the tags of a
table.  Read back, and with the tags alone that the request groups by, each table is the one stored, but
for its cells (`restrictTags_storedTable`); and so is the whole answer, in its order (`own_series_read_back`).
-/
namespace SeriesCache

/-! ## Tags -/

theorem Assignment.text_inj {measurement : Text} {a b : Assignment}
    (h : a.text measurement = b.text measurement) : a = b := by
  have hread := Segment.readEntry_assignment measurement a
  rw [h, Segment.readEntry_assignment] at hread
  cases hread
  rfl

namespace Request

variable {r : Request} {t : Table}

/-- The tags of a table's segment: its own among those grouped by, and what predicates say of the others. -/
theorem mem_tags_segmentOf {k v : Text} : (k, v) ∈ (r.segmentOf t).tags ↔
    ((k, v) ∈ t.tags.entries ∧ k ∈ r.groupTags) ∨
    ∃ p ∈ r.tagPredicates, p.name ∉ r.groupTags ∧ p.operator = .eq ∧ (p.name, p.value) = (k, v) := by
  rw [segmentOf, Segment.tags, Segment.ofAssignments, List.mem_filterMap]
  simp only [Text.mem_distinctOn fun _ _ => Assignment.text_inj, List.mem_append, List.mem_map,
    List.mem_filter]
  constructor
  · rintro ⟨_, ⟨⟨k', v'⟩, ⟨hmem, hgroup⟩, rfl⟩ | ⟨p, ⟨hp, hgroup⟩, rfl⟩, heq⟩
    · cases heq
      exact .inl ⟨hmem, by simpa using hgroup⟩
    · split at heq
      · rename_i hop
        cases heq
        exact .inr ⟨p, hp, by simpa using hgroup, hop, rfl⟩
      · cases heq
  · rintro (⟨hmem, hgroup⟩ | ⟨p, hp, hgroup, hop, heq⟩)
    · exact ⟨⟨k, .eq, v⟩, .inl ⟨(k, v), ⟨hmem, by simpa using hgroup⟩, rfl⟩, rfl⟩
    · exact ⟨_, .inr ⟨p, ⟨hp, by simpa using hgroup⟩, rfl⟩, by simpa [hop] using heq⟩

/-- **The tags grouped by are read off the segment** as they were. -/
theorem filter_ofList_tags (h : ∀ k ∈ t.tags.keys, k ∈ r.groupTags) :
    (Dict.ofList (r.segmentOf t).tags).filter (r.groupTags.contains ·) = t.tags := by
  apply Dict.ext_get?
  intro k
  rw [Dict.get?_filter]
  by_cases hk : k ∈ r.groupTags
  · have hown {v : Text} : (k, v) ∈ (r.segmentOf t).tags ↔ t.tags.get? k = some v := by
      rw [mem_tags_segmentOf, ← Dict.mem_entries_iff]
      constructor
      · rintro (⟨hmem, -⟩ | ⟨p, -, hp, -, heq⟩)
        · exact hmem
        · cases heq
          exact absurd hk hp
      · exact fun hmem => .inl ⟨hmem, hk⟩
    rw [if_pos (by simpa using hk)]
    exact Dict.get?_ofList_eq fun _ => hown
  · rw [if_neg (by simpa using hk)]
    cases hget : t.tags.get? k with
    | none => rfl
    | some v =>
      have hkeys : k ∈ t.tags.keys := List.mem_map_of_mem (Dict.mem_entries_iff.2 hget)
      exact absurd (h k hkeys) hk

/-- The keys of an answer with rows: that of each table in turn. -/
theorem tableKeysOf_eq {catalog : Catalog} {a : Answer} (hanswer : a.isEmpty = false) :
    r.tableKeysOf catalog a = a.tables.map fun t => (r.keyOf catalog a).ofSegment (r.segmentOf t) :=
  if_neg (by simp [hanswer])

end Request

namespace Payload

/-- **A table stored under its own key is read back** with its name, its tags and its rows as stored. -/
theorem restrictTags_storedTable {layout : TextLayout} {r : Request} {key : Key} {t : Table}
    (hname : t.name ≠ []) (htags : ∀ k ∈ t.tags.keys, k ∈ r.groupTags)
    (hcolumns : t.columns = "time".toList :: key.columns.map Column.name) :
    (storedTable layout (key.ofSegment (r.segmentOf t)) t).restrictTags r.groupTags =
      { t with rows := t.rows.map (storedRow layout (key.columns.map Column.type)) } := by
  have hmeasurement : (r.segmentOf t).measurement = t.name := if_neg (by simpa using hname)
  rw [storedTable, Key.ofSegment, Table.restrictTags]
  simp only [Request.filter_ofList_tags htags, hmeasurement, hcolumns]

/-- The answer with its cells as they are stored under the keys of a request. -/
def storedAnswer (layout : TextLayout) (r : Request) (catalog : Catalog) (a : Answer) : Answer :=
  ⟨a.tables.map fun t =>
    { t with rows := t.rows.map (storedRow layout ((r.columnsOf catalog a).map Column.type)) }, none⟩

theorem names_columnsOf {r : Request} {catalog : Catalog} {a : Answer} (h : a.tables ≠ []) :
    (r.columnsOf catalog a).map Column.name = a.columns.tail := by
  rw [Request.columnsOf, if_neg (by simpa using h), List.map_map]
  have hmap : (Column.name ∘ fun (x : Text × Nat) => (⟨x.1, r.columnType catalog a x.2 x.1⟩ : Column)) =
      Prod.fst := rfl
  exact (congrArg (List.map · a.columns.tail.zipIdx) hmap).trans (List.zipIdx_map_fst 0 _)

/-- **An answer stored under the keys of its request is read back** table by table, in the same order. -/
theorem own_series_read_back {layout : TextLayout} {r : Request} {catalog : Catalog} {a : Answer}
    {bytes : Bytes} (hanswer : a.isEmpty = false) (hname : ∀ t ∈ a.tables, t.name ≠ [])
    (htags : ∀ t ∈ a.tables, ∀ k ∈ t.tags.keys, k ∈ r.groupTags)
    (htime : a.columns = "time".toList :: a.columns.tail) (hcolumns : ∀ t ∈ a.tables, t.columns = a.columns)
    (hascending : a.tables.Pairwise fun t u => t.tagText < u.tagText)
    (h : encode layout a (r.tableKeysOf catalog a) = .ok bytes) :
    ∃ b, decode layout bytes = .ok b ∧ b.restrictTags r.groupTags = storedAnswer layout r catalog a := by
  obtain ⟨hlen, bs, rfl, hbs⟩ := encode_eq_ok hanswer h
  have hdecode := decode_flatten (tables_ne_nil hanswer) hlen hbs
  rw [Request.tableKeysOf_eq hanswer, List.zipWith_map_left, List.zipWith_self] at hdecode
  refine ⟨_, hdecode, ?_⟩
  have hrestrict : (a.tables.map fun t => storedTable layout ((r.keyOf catalog a).ofSegment (r.segmentOf t)) t).map
      (Table.restrictTags r.groupTags) = (storedAnswer layout r catalog a).tables := by
    rw [List.map_map]
    refine List.map_congr_left fun t ht => restrictTags_storedTable (hname t ht) (htags t ht) ?_
    rw [hcolumns t ht, htime, Request.keyOf, names_columnsOf (tables_ne_nil hanswer), ← htime]
  have hsorted : (storedAnswer layout r catalog a).tables.Pairwise fun t u => t.tagText < u.tagText :=
    List.pairwise_map.2 hascending
  have hperm := (Text.perm_sortOn Table.tagText (a.tables.map fun t =>
    storedTable layout ((r.keyOf catalog a).ofSegment (r.segmentOf t)) t)).map (Table.restrictTags r.groupTags)
  rw [hrestrict] at hperm
  rw [Answer.restrictTags, Answer.ofTables, Answer.ofTables, Text.sortOn_eq_of_perm hperm hsorted]
  rfl

theorem tables_eq_nil_of_isEmpty {a : Answer} (hrows : ∀ t ∈ a.tables, t.rows ≠ []) (h : a.isEmpty = true) :
    a.tables = [] := by
  cases htables : a.tables with
  | nil => rfl
  | cons t ts =>
    rw [Answer.isEmpty, htables] at h
    exact absurd (List.isEmpty_iff.1 h) (hrows t (htables ▸ List.mem_cons_self))

theorem isEmpty_of_mem {a : Answer} {t : Table} (hrows : ∀ t ∈ a.tables, t.rows ≠ []) (ht : t ∈ a.tables) :
    a.isEmpty = false :=
  Bool.eq_false_iff.2 fun hempty => List.ne_nil_of_mem ht (tables_eq_nil_of_isEmpty hrows hempty)

theorem restrictTags_empty (keys : List Text) : Answer.empty.restrictTags keys = .empty := by
  rw [Answer.restrictTags, Answer.ofTables, Text.sortOn]
  simp only [Answer.empty, List.map_nil, List.mergeSort_nil]

/-- Where all tables have rows, that holds of an answer without tables as well. -/
theorem own_rows_read_back {layout : TextLayout} {r : Request} {catalog : Catalog} {a : Answer} {bytes : Bytes}
    (hrows : ∀ t ∈ a.tables, t.rows ≠ []) (hname : ∀ t ∈ a.tables, t.name ≠ [])
    (htags : ∀ t ∈ a.tables, ∀ k ∈ t.tags.keys, k ∈ r.groupTags)
    (htime : ∀ t ∈ a.tables, t.columns.head? = some "time".toList) (hcolumns : ∀ t ∈ a.tables, t.columns = a.columns)
    (hascending : a.tables.Pairwise fun t u => t.tagText < u.tagText)
    (h : encode layout a (r.tableKeysOf catalog a) = .ok bytes) :
    ∃ b, decode layout bytes = .ok b ∧ b.restrictTags r.groupTags = storedAnswer layout r catalog a := by
  cases hempty : a.isEmpty with
  | true =>
    have htables := tables_eq_nil_of_isEmpty hrows hempty
    rw [encode_of_isEmpty hempty] at h
    cases h
    refine ⟨.empty, rfl, ?_⟩
    rw [restrictTags_empty, storedAnswer, htables, List.map_nil, Answer.empty]
  | false =>
    obtain ⟨t, ht⟩ := List.exists_mem_of_ne_nil _ (tables_ne_nil hempty)
    obtain ⟨_, hcons⟩ := List.head?_eq_some_iff.1 (htime t ht)
    have htime : a.columns = "time".toList :: a.columns.tail := by rw [← hcolumns t ht, hcons, List.tail_cons]
    exact own_series_read_back hempty hname htags htime hcolumns hascending h

/-! ## Rows that were written -/

theorem length_of_rowBytes {layout : TextLayout} {types : List CellType} {row : Row} {bytes : Bytes}
    (h : rowBytes layout types row = .ok bytes) : row.length = types.length := by
  refine Decidable.byContradiction fun hlen => ?_
  rw [rowBytes.eq_def, if_pos hlen] at h
  cases h

/-- Of an answer that was written, so was every row. -/
theorem rowBytes_of_encode {layout : TextLayout} {r : Request} {catalog : Catalog} {a : Answer} {bytes : Bytes}
    (hanswer : a.isEmpty = false) (h : encode layout a (r.tableKeysOf catalog a) = .ok bytes) {t : Table}
    (ht : t ∈ a.tables) {row : Row} (hrow : row ∈ t.rows) :
    ∃ bytes, rowBytes layout (.int64 :: (r.columnsOf catalog a).map Column.type) row = .ok bytes := by
  obtain ⟨-, _, -, hbytes⟩ := encode_eq_ok hanswer h
  rw [Request.tableKeysOf_eq hanswer] at hbytes
  have hzip : (t, (r.keyOf catalog a).ofSegment (r.segmentOf t)) ∈
      a.tables.zip (a.tables.map fun t => (r.keyOf catalog a).ofSegment (r.segmentOf t)) := by
    rw [← List.map_prod_left_eq_zip]
    exact List.mem_map_of_mem ht
  obtain ⟨_, htable⟩ := Outcome.exists_of_mapM_eq_ok hbytes _ hzip
  obtain ⟨_, hrows, -⟩ := tableBytes_eq_ok htable
  exact Outcome.exists_of_mapM_eq_ok hrows row hrow

theorem length_of_encode {layout : TextLayout} {r : Request} {catalog : Catalog} {a : Answer} {bytes : Bytes}
    (hanswer : a.isEmpty = false) (h : encode layout a (r.tableKeysOf catalog a) = .ok bytes) :
    ∀ t ∈ a.tables, ∀ row ∈ t.rows, row.length = (r.columnsOf catalog a).length + 1 := by
  intro t ht row hrow
  obtain ⟨_, hbytes⟩ := rowBytes_of_encode hanswer h ht hrow
  rw [length_of_rowBytes hbytes, List.length_cons, List.length_map]

/-- A row that was written has an instant, and is stored with it. -/
theorem rowInstant?_storedRow {layout : TextLayout} {columns : List CellType} {row : Row} {bytes : Bytes}
    (h : rowBytes layout (.int64 :: columns) row = .ok bytes) :
    Table.rowInstant? (storedRow layout columns row) = Table.rowInstant? row := by
  cases row with
  | nil => rfl
  | cons time cells =>
    rw [rowBytes] at h
    split at h
    · cases h
    obtain ⟨_, ht, -⟩ := Outcome.bind_eq_ok_iff.1 h
    rw [timestampBytes] at ht
    cases htime : time.instant? with
    | none =>
      rw [htime] at ht
      cases ht
    | some n => rw [storedRow, htime, Table.rowInstant?, Table.rowInstant?, List.head?_cons, List.head?_cons,
        Option.bind_some, Option.bind_some, htime, Option.getD_some, Cell.instant?]

end Payload

/-! ## The series of a payload -/

/-- Two tables of one series whose rows stand at the same instants. -/
structure Table.SameSeries (t u : Table) : Prop where
  name : t.name = u.name
  tags : t.tags = u.tags
  columns : t.columns = u.columns
  count : t.rows.length = u.rows.length
  instants : t.rows.map Table.rowInstant? = u.rows.map Table.rowInstant?

/-- **A payload gives back the series of its answer.**  Whatever predicates on tags a request adds to the keys, an
answer written under them is read without fault, and with the tags that the request groups by it has the
tables that it had, in their order. -/
theorem Payload.series_read_back {layout : TextLayout} {r : Request} {catalog : Catalog} {a : Answer} {bytes : Bytes}
    (hanswer : a.isEmpty = false) (hname : ∀ t ∈ a.tables, t.name ≠ [])
    (hcolumns : ∀ t ∈ a.tables, t.columns = a.columns) (htime : a.columns.head? = some "time".toList)
    (htags : ∀ t ∈ a.tables, ∀ k ∈ t.tags.keys, k ∈ r.groupTags)
    (hascending : a.tables.Pairwise fun t u => t.tagText < u.tagText)
    (h : encode layout a (r.tableKeysOf catalog a) = .ok bytes) :
    ∃ b, decode layout bytes = .ok b ∧
      List.Forall₂ Table.SameSeries (b.restrictTags r.groupTags).tables a.tables := by
  obtain ⟨_, hcons⟩ := List.head?_eq_some_iff.1 htime
  have htime : a.columns = "time".toList :: a.columns.tail := by rw [hcons, List.tail_cons]
  obtain ⟨b, hdecode, hb⟩ := own_series_read_back hanswer hname htags htime hcolumns hascending h
  refine ⟨b, hdecode, ?_⟩
  rw [hb, storedAnswer, List.forall₂_map_left_iff, List.forall₂_same]
  intro t ht
  refine ⟨rfl, rfl, rfl, List.length_map _, ?_⟩
  rw [List.map_map]
  refine List.map_congr_left fun row hrow => ?_
  obtain ⟨_, hbytes⟩ := rowBytes_of_encode hanswer h ht hrow
  exact rowInstant?_storedRow hbytes

namespace Zoned

/-- Groups by host, and restricts the host and two tags that it does not group by. -/
def request : Request where
  measurement := "m".toList
  fields := ["v".toList]
  wildcard := false
  aggregation := none
  tagPredicates := [⟨"zone".toList, .eq, "'y'".toList, "y".toList, .string, .conjunct⟩,
    ⟨"az".toList, .ne, "'x'".toList, "x".toList, .string, .conjunct⟩,
    ⟨"host".toList, .ne, "'q'".toList, "q".toList, .string, .conjunct⟩]
  fieldPredicates := []
  window := .between 0 10
  groupTags := ["host".toList]
  groupInterval := none
  statement := ⟨[⟨.name "v".toList none, none⟩], ⟨none, none, .name "m".toList⟩, none, [.tag "host".toList],
    none, none, none, none, none, none, none⟩
  underOr := false
  regexDimension := false

/-- A table without tags stands before one with a host; with their zone they stand the other way round. -/
def answer : Answer :=
  ⟨[⟨"m".toList, .empty, ["time".toList, "v".toList], [[.string "1970-01-01T00:00:01Z".toList, .null]]⟩,
    ⟨"m".toList, .ofList [("host".toList, "a".toList)], ["time".toList, "v".toList],
      [[.int64 3, .float64 .zero], [.float64 (.ofInt64 4), .int64 7]]⟩], none⟩

end Zoned

open Zoned in
theorem Payload.series_read_back_zoned :
    ∃ bytes b, encode .fixed answer (request.tableKeysOf .empty answer) = .ok bytes ∧ decode .fixed bytes = .ok b ∧
      List.Forall₂ Table.SameSeries (b.restrictTags request.groupTags).tables answer.tables := by
  have hwritten : (encode .fixed answer (request.tableKeysOf .empty answer)).isOk = true := by decide +kernel
  cases h : encode .fixed answer (request.tableKeysOf .empty answer) with
  | error e =>
    rw [h] at hwritten
    cases hwritten
  | ok bytes =>
    obtain ⟨b, hdecode, hsame⟩ := series_read_back rfl (by decide +kernel) (by decide +kernel) rfl (by decide +kernel)
      (by decide +kernel) h
    exact ⟨bytes, b, rfl, hdecode, hsame⟩

/-! ## Cells that are stored as they are -/

/-- A text that is stored as it is: it takes no more bytes than the layout has room for, and in the fixed
layout no NUL stands at its end. -/
def TextLayout.Fits (layout : TextLayout) (s : Text) : Prop :=
  match layout with
  | .fixed => Utf8.size s ≤ 25 ∧ s.getLast? ≠ some '\x00'
  | .counted => Utf8.size s ≤ 65535

/-- A cell that is not null, is of its column's type and, if it is a text, fits. -/
structure Cell.Fits (layout : TextLayout) (type : CellType) (cell : Cell) : Prop where
  type : cell.type? = some type
  text : ∀ s, cell = .string s → layout.Fits s

theorem TextLayout.stored_of_fits {layout : TextLayout} {s : Text} (h : layout.Fits s) : layout.stored s = s := by
  cases layout with
  | fixed => rw [stored, Text.fitting_of_size_le h.1, Text.dropNuls_of_getLast?_ne h.2]
  | counted => rw [stored, Text.fitting_of_size_le h]

theorem Cell.stored_of_fits {layout : TextLayout} {type : CellType} {cell : Cell} (h : cell.Fits layout type) :
    cell.stored layout type = cell := by
  obtain ⟨htype, htext⟩ := h
  cases cell with
  | null => cases htype
  | bool => cases htype; rfl
  | int64 => cases htype; rfl
  | float64 => cases htype; rfl
  | string s =>
    cases htype
    rw [Cell.stored, TextLayout.stored_of_fits (htext s rfl)]

namespace Payload

theorem storedRow_of_fits {layout : TextLayout} {n : Int64} {types : List CellType} {cells : List Cell}
    (hlen : cells.length = types.length)
    (h : ∀ (i : Nat) cell type, cells[i]? = some cell → types[i]? = some type → Cell.Fits layout type cell) :
    storedRow layout types (.int64 n :: cells) = .int64 n :: cells := by
  have hcells : List.zipWith (Cell.stored layout) types cells = cells := by
    apply List.ext_getElem?
    intro i
    rw [List.getElem?_zipWith]
    cases hcell : cells[i]? with
    | none => cases types[i]? <;> rfl
    | some cell =>
      obtain ⟨hi, -⟩ := List.getElem?_eq_some_iff.1 hcell
      have htype := List.getElem?_eq_getElem (hlen ▸ hi)
      rw [htype]
      exact congrArg some (Cell.stored_of_fits (h i cell _ hcell htype))
  rw [storedRow, hcells]
  rfl

end Payload

/-- Every row starts with an integer, and every other cell fits its column in the key of the answer. -/
def Answer.Fits (layout : TextLayout) (r : Request) (catalog : Catalog) (a : Answer) : Prop :=
  ∀ t ∈ a.tables, ∀ row ∈ t.rows, ∃ n cells, row = .int64 n :: cells ∧
    ∀ (i : Nat) cell column, cells[i]? = some cell → (r.columnsOf catalog a)[i]? = some column →
      Cell.Fits layout column.type cell

namespace Payload

/-- **An answer whose cells fit is read back as it is.** -/
theorem storedAnswer_of_fits {layout : TextLayout} {r : Request} {catalog : Catalog} {a : Answer} {bytes : Bytes}
    (hrows : ∀ t ∈ a.tables, t.rows ≠ []) (herror : a.error = none) (hfits : a.Fits layout r catalog)
    (h : encode layout a (r.tableKeysOf catalog a) = .ok bytes) : storedAnswer layout r catalog a = a := by
  have hsame : ∀ t ∈ a.tables,
      { t with rows := t.rows.map (storedRow layout ((r.columnsOf catalog a).map Column.type)) } = t := by
    intro t ht
    have hmap : t.rows.map (storedRow layout ((r.columnsOf catalog a).map Column.type)) = t.rows := by
      refine (List.map_congr_left fun row hrow => ?_).trans (List.map_id _)
      have hlen := length_of_encode (isEmpty_of_mem hrows ht) h t ht row hrow
      obtain ⟨n, cells, rfl, hcells⟩ := hfits t ht row hrow
      refine storedRow_of_fits ?_ fun i cell type hcell htype => ?_
      · rw [List.length_map]
        exact Nat.succ.inj hlen
      · rw [List.getElem?_map, Option.map_eq_some_iff] at htype
        obtain ⟨column, hcolumn, rfl⟩ := htype
        exact hcells i cell column hcell hcolumn
    rw [hmap]
  rw [storedAnswer, (List.map_congr_left hsame).trans (List.map_id' _), ← herror]

end Payload

/-! ## Cells that are not -/

/-- Every cell behind the first of its row is of its column's type in the key of the answer, so none is null. -/
def Answer.Typed (r : Request) (catalog : Catalog) (a : Answer) : Prop :=
  ∀ t ∈ a.tables, ∀ row ∈ t.rows, row.tail.map Cell.type? = (r.columnsOf catalog a).map fun c => some c.type

/-- **A cell that can be written is stored as it is** exactly when it is of its column's type. -/
theorem Cell.stored_eq_self_iff {layout : TextLayout} {type : CellType} {cell : Cell} {bytes : Bytes}
    (h : Payload.cellBytes layout type cell = .ok bytes) (htext : ∀ s, cell = .string s → layout.Fits s) :
    cell.stored layout type = cell ↔ cell.type? = some type := by
  constructor
  · intro hsame
    cases type <;> cases cell <;> first | rfl | (cases h; done) | cases hsame
  · exact fun htype => stored_of_fits ⟨htype, htext⟩

namespace Payload

theorem zipWith_stored_eq_self_iff {layout : TextLayout} : ∀ {types : List CellType} {cells : List Cell}
    {bytes : List Bytes}, cells.length = types.length →
    (types.zip cells).mapM (fun (type, cell) => cellBytes layout type cell) = .ok bytes →
    (∀ s, .string s ∈ cells → layout.Fits s) →
    (List.zipWith (Cell.stored layout) types cells = cells ↔ cells.map Cell.type? = types.map some)
  | [], [], _, _, _, _ => iff_of_true rfl rfl
  | type :: types, cell :: cells, _, hlen, h, htexts => by
    obtain ⟨b, bs, hb, hbs, rfl⟩ := Outcome.mapM_cons_eq_ok_iff.1 h
    have hcell := Cell.stored_eq_self_iff hb fun s hs => htexts s (hs ▸ List.mem_cons_self)
    have hcells := zipWith_stored_eq_self_iff (Nat.succ.inj hlen) hbs fun s hs => htexts s (List.mem_cons_of_mem _ hs)
    rw [List.zipWith_cons_cons, List.map_cons, List.map_cons, List.cons.injEq, List.cons.injEq, hcell, hcells]

theorem storedRow_eq_self_iff {layout : TextLayout} {columns : List CellType} {n : Int64} {cells : List Cell}
    {bytes : Bytes} (h : rowBytes layout (.int64 :: columns) (.int64 n :: cells) = .ok bytes)
    (htexts : ∀ s, .string s ∈ cells → layout.Fits s) :
    storedRow layout columns (.int64 n :: cells) = .int64 n :: cells ↔ cells.map Cell.type? = columns.map some := by
  have hlen := length_of_rowBytes h
  rw [rowBytes, if_neg (Decidable.not_not.2 hlen)] at h
  obtain ⟨_, -, h⟩ := Outcome.bind_eq_ok_iff.1 h
  obtain ⟨_, hcells, -⟩ := Outcome.bind_eq_ok_iff.1 h
  rw [storedRow, List.cons.injEq, zipWith_stored_eq_self_iff (Nat.succ.inj hlen) hcells htexts]
  exact and_iff_right rfl

/-- **An answer is read back as it is exactly when its cells are of the types of their columns**, if its rows start
with integers and its texts fit. -/
theorem storedAnswer_eq_self_iff {layout : TextLayout} {r : Request} {catalog : Catalog} {a : Answer} {bytes : Bytes}
    (herror : a.error = none) (hrows : ∀ t ∈ a.tables, t.rows ≠ [])
    (hfirst : ∀ t ∈ a.tables, ∀ row ∈ t.rows, ∃ n cells, row = .int64 n :: cells)
    (htexts : ∀ t ∈ a.tables, ∀ row ∈ t.rows, ∀ s, .string s ∈ row → layout.Fits s)
    (h : encode layout a (r.tableKeysOf catalog a) = .ok bytes) :
    storedAnswer layout r catalog a = a ↔ a.Typed r catalog := by
  have htables : storedAnswer layout r catalog a = a ↔ ∀ t ∈ a.tables, ∀ row ∈ t.rows,
      storedRow layout ((r.columnsOf catalog a).map Column.type) row = row := by
    obtain ⟨tables, error⟩ := a
    cases herror
    rw [storedAnswer, Answer.mk.injEq, map_eq_self_iff, and_iff_left rfl]
    refine forall₂_congr fun t ht => ?_
    rw [← map_eq_self_iff]
    exact ⟨fun heq => congrArg Table.rows heq, fun heq => by rw [heq]⟩
  rw [htables]
  refine forall₂_congr fun t ht => forall₂_congr fun row hrow => ?_
  obtain ⟨_, hbytes⟩ := rowBytes_of_encode (isEmpty_of_mem hrows ht) h ht hrow
  obtain ⟨n, cells, rfl⟩ := hfirst t ht row hrow
  rw [storedRow_eq_self_iff hbytes fun s hs => htexts t ht _ hrow s (List.mem_cons_of_mem _ hs), List.map_map]
  rfl

end Payload
end SeriesCache
