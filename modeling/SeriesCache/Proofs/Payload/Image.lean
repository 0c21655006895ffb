import SeriesCache.Proofs.Payload.Extent
import SeriesCache.Proofs.Payload.Series
/-!
# What bytes are read as

Whatever is read without fault is what it would be written as, but for the spelling of its keys: a cell that was read
fits its column, and its bytes are those that it is written in (`Payload.readCell_eq_ok`); so it is with rows, and
with tables that stand one after another (`Payload.readTablesWithin_eq_ok`).  An answer that was read can therefore be
written again, under any keys that name its tables, and is read again as it is (`Payload.decoded_stable`).
-/
namespace SeriesCache

namespace Payload

variable {layout : TextLayout}

/-! ## Cells -/

theorem encode_of_textOf {bytes : Bytes} {s : Text} (h : textOf bytes = .ok s) : Utf8.encode s = bytes :=
  Utf8.encode_of_decode (Outcome.mapError_eq_ok_iff.1 h)

/-- The bytes of a number that was read are the bytes it was read from. -/
theorem toNat_toUInt64_ofBigEndian {bytes : Bytes} (h : bytes.length = 8) :
    (ofBigEndian bytes).toUInt64.toNat = ofBigEndian bytes :=
  Nat.mod_eq_of_lt (ofBigEndian_lt h)

theorem int64Bytes_int64Of {bytes : Bytes} (h : bytes.length = 8) : int64Bytes (int64Of bytes) = bytes := by
  rw [int64Bytes, int64Of, UInt64.toUInt64_toInt64, toNat_toUInt64_ofBigEndian h, bigEndian_ofBigEndian h]

theorem floatBytes_floatOf {bytes : Bytes} (h : bytes.length = 8) : floatBytes (floatOf bytes) = bytes := by
  rw [floatBytes, floatOf, toNat_toUInt64_ofBigEndian h, bigEndian_ofBigEndian h]

/-- **A text that was read fits**, and its bytes are those that it is written in. -/
theorem takeText_eq_ok {bytes front rest : Bytes} {s : Text} (h : takeText layout bytes = (.ok front, rest))
    (hs : textOf front = .ok s) : layout.Fits s ∧ bytes = textBytes layout s ++ rest := by
  have hfront := encode_of_textOf hs
  cases layout with
  | fixed =>
    cases htake : take fixedWidth .string bytes with
    | mk read behind =>
      rw [takeText, htake] at h
      cases read with
      | error e => cases h
      | ok raw =>
        cases h
        obtain ⟨hlength, rfl⟩ := eq_of_take htake
        -- Of the bytes that are read, those that are not the text's are zeros behind it, as they are when it is written.
        have hzeros := dropZeros_append_replicate raw
        have hsize : Utf8.size s ≤ fixedWidth := by
          have htotal := congrArg List.length hzeros
          rw [List.length_append] at htotal
          rw [← Utf8.length_encode, hfront]
          omega
        refine ⟨⟨hsize, getLast?_ne_of_encode (hfront ▸ getLast?_dropZeros_ne raw)⟩, ?_⟩
        rw [textBytes, Text.within_of_size_le hsize, hfront, ← hlength, hzeros]
  | counted =>
    cases htake : take 2 .stringLength bytes with
    | mk read behind =>
      rw [takeText, htake] at h
      cases read with
      | error e => cases h
      | ok count =>
        obtain ⟨hcount, rfl⟩ := eq_of_take htake
        obtain ⟨hlength, rfl⟩ := eq_of_take h
        have hsize : Utf8.size s ≤ countedLimit := by
          have hlt := ofBigEndian_lt hcount
          rw [← Utf8.length_encode, hfront, hlength]
          exact Nat.le_of_lt_succ hlt
        refine ⟨hsize, ?_⟩
        rw [textBytes, Text.within_of_size_le hsize, hfront, hlength, bigEndian_ofBigEndian hcount, List.append_assoc]

/-- What is made of bytes that are taken off the front is made of so many. -/
theorem exists_of_take_bind {α : Type} {f : Bytes → Except PayloadError α} {n : Nat} {part : PayloadPart}
    {bytes rest : Bytes} {a : α} (h : ((take n part bytes).1.bind f, (take n part bytes).2) = (.ok a, rest)) :
    ∃ front, front.length = n ∧ bytes = front ++ rest ∧ f front = .ok a := by
  obtain ⟨hread, rfl⟩ := Prod.mk.inj h
  obtain ⟨front, hfront, hf⟩ := Outcome.bind_eq_ok_iff.1 hread
  obtain ⟨hlength, hbytes⟩ := eq_of_take (Prod.ext hfront rfl)
  exact ⟨front, hlength, hbytes, hf⟩

theorem exists_of_take_map {α : Type} {f : Bytes → α} {n : Nat} {part : PayloadPart} {bytes rest : Bytes} {a : α}
    (h : ((take n part bytes).1.map f, (take n part bytes).2) = (.ok a, rest)) :
    ∃ front, front.length = n ∧ bytes = front ++ rest ∧ f front = a := by
  have hbind : (take n part bytes).1.map f = (take n part bytes).1.bind fun front => .ok (f front) := by
    cases (take n part bytes).1 <;> rfl
  rw [hbind] at h
  obtain ⟨front, hlength, hbytes, hf⟩ := exists_of_take_bind h
  exact ⟨front, hlength, hbytes, Except.ok.inj hf⟩

/-- **A cell that was read fits its column**, and its bytes are those that it is written in. -/
theorem readCell_eq_ok {type : CellType} {cell : Cell} {bytes rest : Bytes}
    (h : readCell layout type bytes = (.ok cell, rest)) :
    cell.Fits layout type ∧ ∃ front, cellBytes layout type cell = .ok front ∧ bytes = front ++ rest := by
  cases type with
  | bool =>
    obtain ⟨front, -, rfl, hread⟩ := exists_of_take_bind h
    obtain ⟨b, hb, rfl⟩ := Outcome.map_eq_ok_iff.1 hread
    refine ⟨⟨rfl, fun s hs => by cases hs⟩, front, ?_, rfl⟩
    unfold boolOf at hb
    split at hb <;> cases hb <;> rfl
  | int64 =>
    obtain ⟨front, hlength, rfl, rfl⟩ := exists_of_take_map h
    exact ⟨⟨rfl, fun s hs => by cases hs⟩, front, congrArg Except.ok (int64Bytes_int64Of hlength), rfl⟩
  | float64 =>
    obtain ⟨front, hlength, rfl, rfl⟩ := exists_of_take_map h
    exact ⟨⟨rfl, fun s hs => by cases hs⟩, front, congrArg Except.ok (floatBytes_floatOf hlength), rfl⟩
  | string =>
    cases htake : takeText layout bytes with
    | mk read behind =>
      rw [readCell, htake] at h
      obtain ⟨hread, rfl⟩ := Prod.mk.inj h
      obtain ⟨front, rfl, hread⟩ := Outcome.bind_eq_ok_iff.1 hread
      obtain ⟨s, hs, rfl⟩ := Outcome.map_eq_ok_iff.1 hread
      obtain ⟨hfits, hbytes⟩ := takeText_eq_ok htake hs
      refine ⟨⟨rfl, fun s' hs' => ?_⟩, textBytes layout s, rfl, hbytes⟩
      cases hs'
      exact hfits

/-! ## Rows -/

/-- A row that starts with an integer and has a cell for each column, each of which fits. -/
def RowFits (layout : TextLayout) (types : List CellType) (row : Row) : Prop :=
  ∃ n cells, row = .int64 n :: cells ∧ List.Forall₂ (Cell.Fits layout) types cells

theorem readCells_eq_ok {length : Int64} : ∀ {types : List CellType} {bytes rest : Bytes} {cells : Row},
    readCells layout length types bytes = .ok (cells, rest) → List.Forall₂ (Cell.Fits layout) types cells ∧
      ∃ written, (types.zip cells).mapM (fun (type, cell) => cellBytes layout type cell) = .ok written ∧
        bytes = written.flatten ++ rest
  | [], _, _, _, h => by
    cases h
    exact ⟨.nil, [], rfl, rfl⟩
  | type :: types, bytes, rest, cells, h => by
    unfold readCells at h
    split at h
    · rename_i cell behind hcell
      obtain ⟨⟨cells, rest⟩, hcells, h⟩ := Outcome.bind_eq_ok_iff.1 h
      cases h
      obtain ⟨hfits, front, hfront, rfl⟩ := readCell_eq_ok hcell
      obtain ⟨hall, written, hwritten, rfl⟩ := readCells_eq_ok hcells
      refine ⟨.cons hfits hall, front :: written, ?_, ?_⟩
      · exact Outcome.mapM_cons_eq_ok_iff.2 ⟨front, written, hfront, hwritten, rfl⟩
      · rw [List.flatten_cons, List.append_assoc]
    · cases h

/-- **A row that was read fits**, and its bytes are those that it is written in. -/
theorem rowBytes_of_readCells {length : Int64} {types : List CellType} {bytes rest : Bytes} {row : Row}
    (h : readCells layout length (.int64 :: types) bytes = .ok (row, lineEnd ++ rest)) :
    RowFits layout types row ∧
      ∃ written, rowBytes layout (.int64 :: types) row = .ok written ∧ bytes = written ++ rest := by
  obtain ⟨hfits, written, hwritten, rfl⟩ := readCells_eq_ok h
  cases hfits with
  | @cons _ time _ cells htime hcells =>
    obtain ⟨first, behind, hfirst, hbehind, rfl⟩ := Outcome.mapM_cons_eq_ok_iff.1 hwritten
    obtain ⟨n, rfl⟩ : ∃ n, time = .int64 n := by
      cases time <;> cases htime.type
      exact ⟨_, rfl⟩
    cases hfirst
    refine ⟨⟨n, cells, rfl, hcells⟩, int64Bytes n ++ behind.flatten ++ lineEnd, ?_, ?_⟩
    · have hlen : (Cell.int64 n :: cells).length = (CellType.int64 :: types).length := by
        rw [List.length_cons, List.length_cons, hcells.length_eq]
      rw [rowBytes, if_neg (not_not_intro hlen)]
      refine Outcome.bind_eq_ok_iff.2 ⟨_, rfl, ?_⟩
      exact Outcome.bind_eq_ok_iff.2 ⟨_, hbehind, rfl⟩
    · simp only [List.flatten_cons, List.append_assoc]

/-- **Rows that were read fit**, and their bytes are those that they are written in. -/
theorem readRowsWithin_eq_ok {length : Int64} {types : List CellType} : ∀ {n : Nat} {bytes : Bytes} {rows : List Row},
    readRowsWithin layout length (.int64 :: types) n bytes = .ok rows → (∀ row ∈ rows, RowFits layout types row) ∧
      ∃ written, rows.mapM (rowBytes layout (.int64 :: types)) = .ok written ∧ bytes = written.flatten
  | n, [], _, h => by
    cases n <;> cases h <;> exact ⟨fun row hrow => (List.not_mem_nil hrow).elim, [], rfl, rfl⟩
  | 0, _ :: _, _, h => by cases h
  | n + 1, b :: bytes, rows, h => by
    rw [readRowsWithin] at h
    · obtain ⟨⟨row, behind⟩, hrow, h⟩ := Outcome.bind_eq_ok_iff.1 h
      obtain ⟨rest, hrest, h⟩ := Outcome.bind_eq_ok_iff.1 h
      obtain ⟨rows, hrows, h⟩ := Outcome.bind_eq_ok_iff.1 h
      cases h
      have hend := eq_of_readLineEnd hrest
      subst hend
      obtain ⟨hfits, front, hfront, heq⟩ := rowBytes_of_readCells hrow
      obtain ⟨hall, written, hwritten, rfl⟩ := readRowsWithin_eq_ok hrows
      refine ⟨List.forall_mem_cons.2 ⟨hfits, hall⟩, front :: written, ?_, ?_⟩
      · exact Outcome.mapM_cons_eq_ok_iff.2 ⟨front, written, hfront, hwritten, rfl⟩
      · rw [heq, List.flatten_cons]
    · exact List.cons_ne_nil _ _

/-! ## Tables -/

theorem eq_of_cutKey? : ∀ {bytes key rest : Bytes}, cutKey? bytes = some (key, rest) → bytes = key ++ 32 :: rest
  | [], _, _, h => by cases h
  | a :: bytes, key, rest, h => by
    by_cases h32 : a = 32
    · rw [h32, cutKey?_blank] at h
      cases h
      rw [h32]
      rfl
    by_cases h92 : a = 92
    · cases bytes with
      | nil =>
        rw [h92] at h
        cases h
      | cons b bytes =>
        rw [h92, cutKey?_escape] at h
        obtain ⟨⟨key, rest⟩, hcut, h⟩ := Option.map_eq_some_iff.1 h
        cases h
        rw [h92, eq_of_cutKey? hcut]
        rfl
    · rw [cutKey?_plain h32 h92] at h
      obtain ⟨⟨key, rest⟩, hcut, h⟩ := Option.map_eq_some_iff.1 h
      cases h
      rw [eq_of_cutKey? hcut]
      rfl

/-- A length that is not negative stands in the bytes of its number, and a buffer can have it. -/
theorem bigEndian_toNat_int64Of {count : Bytes} (hcount : count.length = 8) (h : ¬ int64Of count < 0) :
    bigEndian 8 (int64Of count).toInt.toNat = count ∧ (int64Of count).toInt.toNat ≤ bufferLimit := by
  have hword : (int64Of count).toUInt64.toNat = (int64Of count).toInt.toNat :=
    Int64.toNat_toUInt64_of_le (Int64.not_lt.1 h)
  refine ⟨?_, ?_⟩
  · rw [← hword]
    exact int64Bytes_int64Of hcount
  · have hlt := (int64Of count).toInt_lt
    have hlimit : bufferLimit = 2 ^ 63 - 1 := rfl
    omega

/-- Bytes that consist of tables, with the key that stands before each: the text of the key and a blank, the length of
the rows in eight bytes, a line end and the rows, and one more line end behind the last table. -/
inductive Consists (layout : TextLayout) : Bytes → List (Key × Table) → Prop where
  | nil : Consists layout lineEnd []
  | cons {s : Text} {key : Key} {rows : List Row} {written : List Bytes} {rest : Bytes} {stored : List (Key × Table)}
      (hkey : Key.read s = .ok key) (hrows : rows.mapM (rowBytes layout key.columnTypes) = .ok written)
      (hsize : written.flatten.length ≤ bufferLimit) (hrest : Consists layout rest stored) :
      Consists layout
        (Utf8.encode s ++ 32 :: (bigEndian 8 written.flatten.length ++ (lineEnd ++ (written.flatten ++ rest))))
        ((key, tableOf key rows) :: stored)

end Payload

/-- A table as a key tells it: its columns are the time and those of the key, and the cells of every row fit them. -/
structure Table.Conforms (layout : TextLayout) (key : Key) (t : Table) : Prop where
  columns : t.columns = key.columnNames
  rows : ∀ row ∈ t.rows, Payload.RowFits layout (key.columns.map Column.type) row

theorem Table.Conforms.length_eq {layout : TextLayout} {key : Key} {t : Table} (h : t.Conforms layout key) :
    ∀ row ∈ t.rows, row.length = t.columns.length := by
  intro row hrow
  obtain ⟨n, cells, rfl, hcells⟩ := h.rows row hrow
  rw [h.columns, Key.columnNames, List.length_cons, List.length_cons, ← hcells.length_eq, List.length_map,
    List.length_map]

namespace Payload

/-- **A table that was read conforms to its key**, and stands at the front of the bytes as such. -/
theorem conforms_of_readTable {bytes rest : Bytes} {t : Table} (h : readTable layout bytes = .ok (t, rest)) :
    ∃ key, t.Conforms layout key ∧ ∀ stored, Consists layout rest stored →
      Consists layout bytes ((key, t) :: stored) := by
  obtain ⟨keyBytes, s, key, count, data, rows, hcut, hs, hkey, hcount, hnonneg, hdata, hrows, rfl⟩ := readTable_eq_ok h
  obtain ⟨hfits, written, hwritten, rfl⟩ := readRowsWithin_eq_ok hrows
  obtain ⟨hbytes, hsize⟩ := bigEndian_toNat_int64Of hcount hnonneg
  rw [← hdata] at hbytes hsize
  refine ⟨key, ⟨rfl, hfits⟩, fun stored hstored => ?_⟩
  rw [eq_of_cutKey? hcut, ← encode_of_textOf hs, ← hbytes]
  exact .cons hkey hwritten hsize hstored

/-- **What was read as tables consists of them**, and each conforms to its key. -/
theorem readTablesWithin_eq_ok : ∀ {n : Nat} {bytes : Bytes} {tables : List Table},
    readTablesWithin layout n bytes = .ok tables → ∃ stored, Consists layout bytes stored ∧
      tables = stored.map Prod.snd ∧ ∀ e ∈ stored, e.2.Conforms layout e.1
  | n, [], _, h => by cases n <;> cases h
  | 0, _ :: _, _, h => by cases h
  | n + 1, b :: bytes, tables, h => by
    unfold readTablesWithin at h
    split at h
    · rename_i hdrop
      cases h
      rw [eq_of_dropBytes? hdrop]
      exact ⟨[], .nil, rfl, fun e he => (List.not_mem_nil he).elim⟩
    · cases h
    · obtain ⟨⟨t, rest⟩, htable, h⟩ := Outcome.bind_eq_ok_iff.1 h
      obtain ⟨tables, htables, h⟩ := Outcome.bind_eq_ok_iff.1 h
      cases h
      obtain ⟨key, hconforms, hfront⟩ := conforms_of_readTable htable
      obtain ⟨stored, hstored, rfl, hall⟩ := readTablesWithin_eq_ok htables
      exact ⟨(key, t) :: stored, hfront stored hstored, rfl, List.forall_mem_cons.2 ⟨hconforms, hall⟩⟩

/-- Every table of a payload has rows that were written under its key, as a buffer can hold. -/
theorem Consists.rows_of_mem {bytes : Bytes} {stored : List (Key × Table)} (h : Consists layout bytes stored) :
    ∀ e ∈ stored, ∃ written, e.2.rows.mapM (rowBytes layout e.1.columnTypes) = .ok written ∧
      written.flatten.length ≤ bufferLimit := by
  induction h with
  | nil => exact fun e he => (List.not_mem_nil he).elim
  | cons _ hrows hsize _ ih => exact List.forall_mem_cons.2 ⟨⟨_, hrows, hsize⟩, ih⟩

end Payload

/-! ## Answers -/

/-- A key for a table: its one segment names the table and equates its tags, and its columns are those of the table. -/
structure Key.Describes (layout : TextLayout) (key : Key) (t : Table) : Prop where
  segment : ∃ s, key.segments = [s] ∧ s.measurement = t.name ∧
    ∀ a, a ∈ s.assignments ↔ ∃ e ∈ t.tags.entries, a = ⟨e.1, .eq, e.2⟩
  conforms : t.Conforms layout key

theorem Segment.ofList_tags {s : Segment} {tags : Dict Text}
    (h : ∀ a, a ∈ s.assignments ↔ ∃ e ∈ tags.entries, a = ⟨e.1, .eq, e.2⟩) : Dict.ofList s.tags = tags := by
  refine Dict.ofList_eq_of_mem_iff fun e => ?_
  rw [Segment.tags, List.mem_filterMap]
  constructor
  · rintro ⟨a, ha, heq⟩
    obtain ⟨e', he', rfl⟩ := (h a).1 ha
    cases heq
    exact he'
  · exact fun he => ⟨⟨e.1, .eq, e.2⟩, (h _).2 ⟨e, he, rfl⟩, rfl⟩

namespace Payload

/-- Cells that fit tell the types of their columns. -/
theorem filterMap_type?_of_fits {types : List CellType} {cells : List Cell}
    (h : List.Forall₂ (Cell.Fits layout) types cells) : cells.filterMap Cell.type? = types := by
  induction h with
  | nil => rfl
  | cons hcell _ ih => rw [List.filterMap_cons_some hcell.type, ih]

theorem RowFits.types_eq {types types' : List CellType} {row : Row} (h : RowFits layout types row)
    (h' : RowFits layout types' row) : types = types' := by
  obtain ⟨n, cells, rfl, hcells⟩ := h
  obtain ⟨_, _, heq, hcells'⟩ := h'
  cases heq
  rw [← filterMap_type?_of_fits hcells, ← filterMap_type?_of_fits hcells']

theorem RowFits.storedRow_eq {types : List CellType} {row : Row} (h : RowFits layout types row) :
    storedRow layout types row = row := by
  obtain ⟨n, cells, rfl, hcells⟩ := h
  refine storedRow_of_fits hcells.length_eq.symm fun i cell type hcell htype => ?_
  obtain ⟨hi, rfl⟩ := List.getElem?_eq_some_iff.1 hcell
  obtain ⟨hj, rfl⟩ := List.getElem?_eq_some_iff.1 htype
  exact hcells.get hj hi

/-- **A table is stored as it is** under a key that describes it. -/
theorem storedTable_of_describes {key : Key} {t : Table} (h : key.Describes layout t) :
    storedTable layout key t = t := by
  obtain ⟨⟨s, hsegments, hname, htags⟩, hcolumns, hrows⟩ := h
  have hsame : t.rows.map (storedRow layout (key.columns.map Column.type)) = t.rows :=
    map_eq_self_iff.2 fun row hrow => (hrows row hrow).storedRow_eq
  rw [storedTable, hsegments, hsame]
  simp only [hname, Segment.ofList_tags htags]
  rw [← Key.columnNames, ← hcolumns]

/-- A table that could be written under one key can be written under another that describes it. -/
theorem exists_tableBytes {key key' : Key} {t : Table} {written : List Bytes} (h : key.Describes layout t)
    (hconforms : t.Conforms layout key') (hrows : t.rows.mapM (rowBytes layout key'.columnTypes) = .ok written)
    (hsize : written.flatten.length ≤ bufferLimit) : ∃ bytes, tableBytes layout t key = .ok bytes := by
  -- A row tells the types of its columns, so both keys have the same ones; without rows it does not matter which.
  have hrows' : t.rows.mapM (rowBytes layout key.columnTypes) = .ok written := by
    cases hcases : t.rows with
    | nil =>
      rw [hcases] at hrows
      exact hrows
    | cons row rows =>
      have hrow : row ∈ t.rows := hcases ▸ List.mem_cons_self
      have htypes := (h.conforms.rows row hrow).types_eq (hconforms.rows row hrow)
      rw [Key.columnTypes, htypes, ← hcases]
      exact hrows
  have hcolumns : t.columns.length = key.columnTypes.length := by
    rw [h.conforms.columns, Key.columnNames, Key.columnTypes, List.length_cons, List.length_cons, List.length_map,
      List.length_map]
  rw [tableBytes]
  simp only
  rw [if_neg (not_not_intro hcolumns)]
  exact ⟨_, Outcome.bind_eq_ok_iff.2 ⟨written, hrows', if_neg (Nat.not_lt.2 hsize)⟩⟩

theorem zipWith_storedTable {keys : List Key} {tables : List Table}
    (h : List.Forall₂ (Key.Describes layout) keys tables) : List.zipWith (storedTable layout) keys tables = tables := by
  induction h with
  | nil => rfl
  | cons hkey _ ih => rw [List.zipWith_cons_cons, storedTable_of_describes hkey, ih]

/-- **An answer in order is read as it was written** under keys that describe its tables, if these can be written. -/
theorem decode_encode_of_describes {r : Answer} {keys : List Key} (hempty : r.isEmpty = false) (herror : r.error = none)
    (hsorted : r.tables.Pairwise fun t u => ¬ u.tagText < t.tagText)
    (hkeys : List.Forall₂ (Key.Describes layout) keys r.tables)
    (hwrite : ∀ t ∈ r.tables, ∀ key : Key, key.Describes layout t → ∃ bytes, tableBytes layout t key = .ok bytes) :
    ∃ written, encode layout r keys = .ok written ∧ decode layout written = .ok r := by
  have hlen := hkeys.length_eq
  obtain ⟨bs, hbs⟩ : ∃ bs, (r.tables.zip keys).mapM (fun e => tableBytes layout e.1 e.2) = .ok bs :=
    Outcome.exists_mapM_eq_ok fun e he =>
      hwrite e.1 (List.of_mem_zip he).1 e.2 (List.forall₂_zip hkeys.flip he)
  refine ⟨bs.flatten ++ lineEnd, ?_, ?_⟩
  · rw [encode, hempty, if_neg Bool.false_ne_true, if_neg (not_not_intro hlen)]
    exact Outcome.bind_eq_ok_iff.2 ⟨bs, hbs, rfl⟩
  · rw [decode_flatten (tables_ne_nil hempty) hlen hbs, zipWith_storedTable hkeys, Answer.ofTables,
      Text.sortOn_eq_self hsorted, ← herror]

/-- **What was read is well formed, and stays as it is.**  Of bytes that are read without fault, all that is read stands
in them: tables in order, each with the key that it conforms to.  Written again under any keys that describe its tables,
an answer that was read is read as before. -/
theorem decoded_stable {payload : Bytes} {r : Answer} (h : decode layout payload = .ok r) :
    r.error = none ∧ (r.tables.Pairwise fun t u => ¬ u.tagText < t.tagText) ∧
    (∀ t ∈ r.tables, ∀ row ∈ t.rows, row.length = t.columns.length) ∧
    (payload = emptyAnswer ∧ r.tables = [] ∨ ∃ stored, Consists layout payload stored ∧
      r.tables.Perm (stored.map Prod.snd) ∧ ∀ e ∈ stored, e.2.Conforms layout e.1) ∧
    ∀ keys, r.isEmpty = false → List.Forall₂ (Key.Describes layout) keys r.tables →
      ∃ written, encode layout r keys = .ok written ∧ decode layout written = .ok r := by
  by_cases hphrase : payload = emptyAnswer
  · rw [decode, if_pos hphrase] at h
    cases h
    refine ⟨rfl, .nil, fun t ht => (List.not_mem_nil ht).elim, .inl ⟨hphrase, rfl⟩, fun _ hempty => ?_⟩
    cases hempty
  rw [decode, if_neg hphrase] at h
  obtain ⟨tables, htables, h⟩ := Outcome.bind_eq_ok_iff.1 h
  cases h
  obtain ⟨stored, hstored, rfl, hconforms⟩ := readTablesWithin_eq_ok htables
  have hperm := Text.perm_sortOn Table.tagText (stored.map Prod.snd)
  have hsorted := Text.pairwise_sortOn Table.tagText (stored.map Prod.snd)
  have hread (t : Table) (ht : t ∈ Text.sortOn Table.tagText (stored.map Prod.snd)) : ∃ e ∈ stored, e.2 = t :=
    List.mem_map.1 (hperm.mem_iff.1 ht)
  refine ⟨rfl, hsorted, fun t ht => ?_, .inr ⟨stored, hstored, hperm, hconforms⟩, fun keys hempty hkeys => ?_⟩
  · obtain ⟨e, he, rfl⟩ := hread t ht
    exact (hconforms e he).length_eq
  · refine decode_encode_of_describes hempty rfl hsorted hkeys fun t ht key hkey => ?_
    obtain ⟨e, he, rfl⟩ := hread t ht
    obtain ⟨written, hrows, hsize⟩ := hstored.rows_of_mem e he
    exact exists_tableBytes hkey (hconforms e he) hrows hsize

/-- Two tables out of order, one under a key with a tag twice and with backslashes that it needs not. -/
theorem decoded_stable_loose :
    let row : Bytes := int64Bytes 5 ++ int64Bytes (-1) ++ textBytes .fixed "é".toList ++ lineEnd
    let bytes (key : String) : Bytes := Utf8.encode key.toList ++ 32 :: (bigEndian 8 row.length ++ (lineEnd ++ row))
    let payload : Bytes := bytes "\x7b(m.host=b)\x7d#\x7bv[int64],s[string]\x7d#\x7bempty\x7d#\x7bempty,empty\x7d" ++
      bytes "\x7b(m.host=b,m.h\\ost=a)\x7d#\x7b\\v[int64],s[string]\x7d#\x7bempty\x7d#\x7bempty,empty\x7d" ++ lineEnd
    let key (host : Text) : Key := ⟨[⟨"m".toList, [⟨"host".toList, .eq, host⟩]⟩],
      [⟨"v".toList, .int64⟩, ⟨"s".toList, .string⟩], [], none, none⟩
    let table (host : Text) : Table := ⟨"m".toList, .ofList [("host".toList, host)],
      ["time".toList, "v".toList, "s".toList], [[.int64 5, .int64 (-1), .string "é".toList]]⟩
    let answer : Answer := ⟨[table ['a'], table ['b']], none⟩
    decode .fixed payload = .ok answer ∧ ∃ written, encode .fixed answer [key ['a'], key ['b']] = .ok written ∧
      written ≠ payload ∧ decode .fixed written = .ok answer := by
  intro row bytes payload key table answer
  have htables : readTablesWithin .fixed payload.length payload = .ok [table ['b'], table ['a']] := by decide +kernel
  have hsorted : Text.sortOn Table.tagText [table ['b'], table ['a']] = answer.tables :=
    Text.sortOn_eq_of_perm (.swap _ _ _) (by decide)
  have hread : decode .fixed payload = .ok answer := by
    rw [decode, if_neg (by decide)]
    refine Outcome.bind_eq_ok_iff.2 ⟨_, htables, ?_⟩
    rw [Answer.ofTables, hsorted]
    rfl
  have hdescribes (host : Text) : (key host).Describes .fixed (table host) := by
    refine ⟨⟨_, rfl, rfl, fun a => ?_⟩, rfl, fun row hrow => ?_⟩
    · simp [table, Dict.ofList, Dict.insert, Dict.put, Dict.empty]
    · cases List.mem_singleton.1 hrow
      refine ⟨5, _, rfl, .cons ⟨rfl, fun s hs => by cases hs⟩ (.cons ⟨rfl, fun s hs => ?_⟩ .nil)⟩
      cases hs
      exact ⟨by decide, by decide⟩
  obtain ⟨-, -, -, -, hstable⟩ := decoded_stable hread
  obtain ⟨written, hwritten, hagain⟩ :=
    hstable [key ['a'], key ['b']] rfl (.cons (hdescribes ['a']) (.cons (hdescribes ['b']) .nil))
  refine ⟨hread, written, hwritten, ?_, hagain⟩
  rintro rfl
  have hnot : encode .fixed answer [key ['a'], key ['b']] ≠ .ok payload := by decide
  exact hnot hwritten

end Payload
end SeriesCache
