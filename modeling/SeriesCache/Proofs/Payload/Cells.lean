import SeriesCache.Payload.Decode
import SeriesCache.Payload.Encode
import SeriesCache.Proofs.Outcome
import SeriesCache.Proofs.Payload.Bytes
/-!
# Cells read back

A cell written into a column of a type reads back as `Cell.stored` says, and the bytes behind it are left
as they are (`readCell_append`).  So do the cells of a row, whose first is an instant, and the rows of a
table (`readRowsWithin_flatten`).
-/
namespace SeriesCache

/-- A text as it is stored: cut to fit, and in the fixed layout without NULs at its end. -/
def TextLayout.stored : TextLayout → Text → Text
  | .fixed, s => (Text.fitting 25 s).dropNuls
  | .counted, s => Text.fitting 65535 s

/-- A cell as a column of a type stores it: null as the zero of the type, a number of one kind as one of
the other, a text as it fits, and any other cell as it is. -/
def Cell.stored (layout : TextLayout) : CellType → Cell → Cell
  | .bool, .null => .bool false
  | .int64, .null => .int64 0
  | .float64, .null => .float64 .zero
  | .string, .null => .string []
  | .int64, .float64 x => .int64 x.toInt64
  | .float64, .int64 n => .float64 (.ofInt64 n)
  | .string, .string s => .string (layout.stored s)
  | _, cell => cell

namespace Payload

/-! ## Cells -/

theorem take_append {n : Nat} {front : Bytes} (h : front.length = n) (part : PayloadPart)
    (rest : Bytes) : take n part (front ++ rest) = (.ok front, rest) := by
  rw [take, splitBytes?_of_length h]

theorem toUInt64_ofBigEndian (n : UInt64) : (ofBigEndian (bigEndian 8 n.toNat)).toUInt64 = n := by
  rw [@ofBigEndian_bigEndian 8 _ n.toNat_lt]
  exact UInt64.ofNat_toNat

@[simp] theorem int64Of_int64Bytes (n : Int64) : int64Of (int64Bytes n) = n := by
  rw [int64Of, int64Bytes, toUInt64_ofBigEndian]
  exact Int64.toInt64_toUInt64 n

@[simp] theorem floatOf_floatBytes (x : Binary64) : floatOf (floatBytes x) = x := by
  rw [floatOf, floatBytes, toUInt64_ofBigEndian]

theorem length_int64Bytes (n : Int64) : (int64Bytes n).length = 8 := length_bigEndian 8 _

theorem length_floatBytes (x : Binary64) : (floatBytes x).length = 8 := length_bigEndian 8 _

/-- **A text reads back as it was stored**, and the bytes behind it are left. -/
theorem takeText_append (layout : TextLayout) (s : Text) (rest : Bytes) :
    takeText layout (textBytes layout s ++ rest) = (.ok (Utf8.encode (layout.stored s)), rest) := by
  cases layout with
  | fixed =>
    have hsize := Text.size_within_le fixedWidth s
    have hlen : (textBytes .fixed s).length = fixedWidth := by
      rw [textBytes, List.length_append, List.length_replicate, Utf8.length_encode]
      omega
    rw [takeText]
    simp only
    rw [take_append hlen]
    simp only [Except.map, textBytes, dropZeros_encode_append, Text.within_eq_fitting]
    rfl
  | counted =>
    have hsize := Text.size_within_le countedLimit s
    have hcount : (Utf8.encode (Text.within countedLimit s)).length < Nat.pow 256 2 := by
      rw [Utf8.length_encode]
      exact Nat.lt_of_le_of_lt hsize (by decide)
    rw [takeText, textBytes, List.append_assoc, take_append (length_bigEndian 2 _)]
    simp only
    rw [ofBigEndian_bigEndian hcount, take_append rfl, Text.within_eq_fitting]
    rfl

theorem textOf_encode (s : Text) : textOf (Utf8.encode s) = .ok s := by
  rw [textOf, Utf8.decode_encode]
  rfl

theorem stored_nil (layout : TextLayout) : layout.stored [] = [] := by
  cases layout <;> rfl

theorem eq_toInt64_of_wholeNumber? {x : Binary64} {n : Int64} (h : Cell.wholeNumber? x = some n) :
    n = x.toInt64 := by
  rw [Cell.wholeNumber?] at h
  split at h
  · exact (Option.some.inj h).symm
  · cases h

theorem readCell_int64Bytes (layout : TextLayout) (n : Int64) (rest : Bytes) :
    readCell layout .int64 (int64Bytes n ++ rest) = (.ok (.int64 n), rest) := by
  rw [readCell, take_append (length_int64Bytes n)]
  simp only [Except.map, int64Of_int64Bytes]

theorem readCell_floatBytes (layout : TextLayout) (x : Binary64) (rest : Bytes) :
    readCell layout .float64 (floatBytes x ++ rest) = (.ok (.float64 x), rest) := by
  rw [readCell, take_append (length_floatBytes x)]
  simp only [Except.map, floatOf_floatBytes]

theorem readCell_textBytes (layout : TextLayout) (s : Text) (rest : Bytes) :
    readCell layout .string (textBytes layout s ++ rest) = (.ok (.string (layout.stored s)), rest) := by
  rw [readCell, takeText_append]
  simp only [Except.bind, textOf_encode, Except.map]

/-- **A cell reads back as it was stored**, and the bytes behind it are left. -/
theorem readCell_append {layout : TextLayout} {type : CellType} {cell : Cell} {bytes : Bytes}
    (h : cellBytes layout type cell = .ok bytes) (rest : Bytes) :
    readCell layout type (bytes ++ rest) = (.ok (cell.stored layout type), rest) := by
  cases type with
  | bool =>
    cases cell with
    | null => cases h; rfl
    | bool b => cases h; cases b <;> rfl
    | _ => cases h
  | int64 =>
    cases cell with
    | null => cases h; exact readCell_int64Bytes layout 0 rest
    | int64 n => cases h; exact readCell_int64Bytes layout n rest
    | float64 x =>
      unfold cellBytes at h
      simp only at h
      split at h
      · rename_i n hn
        cases h
        rw [readCell_int64Bytes, eq_toInt64_of_wholeNumber? hn]
        rfl
      · cases h
    | _ => cases h
  | float64 =>
    cases cell with
    | null => cases h; exact readCell_floatBytes layout .zero rest
    | int64 n => cases h; exact readCell_floatBytes layout (.ofInt64 n) rest
    | float64 x => cases h; exact readCell_floatBytes layout x rest
    | _ => cases h
  | string =>
    cases cell with
    | null =>
      cases h
      rw [readCell_textBytes, stored_nil]
      rfl
    | string s => cases h; exact readCell_textBytes layout s rest
    | _ => cases h

/-! ## Rows -/

/-- A row as a table with these columns stores it, when its first cell is an instant. -/
def storedRow (layout : TextLayout) (columns : List CellType) (row : Row) : Row :=
  match row with
  | [] => []
  | time :: cells => .int64 ((time.instant?).getD 0) ::
      List.zipWith (Cell.stored layout) columns cells

theorem readCells_append {layout : TextLayout} (length : Int64) : ∀ {types : List CellType}
    {cells : List Cell} {bytes : List Bytes}, cells.length = types.length →
    (types.zip cells).mapM (fun (type, cell) => cellBytes layout type cell) = .ok bytes →
    ∀ rest, readCells layout length types (bytes.flatten ++ rest) =
      .ok (List.zipWith (Cell.stored layout) types cells, rest)
  | [], [], _, _, h, rest => by cases h; rfl
  | type :: types, cell :: cells, bytes, hlen, h, rest => by
    obtain ⟨b, bs, hb, hbs, rfl⟩ := Outcome.mapM_cons_eq_ok_iff.1 h
    rw [List.flatten_cons, List.append_assoc, readCells, readCell_append hb]
    simp only
    rw [readCells_append length (Nat.succ.inj hlen) hbs rest]
    rfl

/-- **A row reads back as it was stored**, up to its line end. -/
theorem readCells_rowBytes {layout : TextLayout} (length : Int64) {columns : List CellType} {row : Row}
    {bytes : Bytes} (h : rowBytes layout (.int64 :: columns) row = .ok bytes) (rest : Bytes) :
    readCells layout length (.int64 :: columns) (bytes ++ rest) =
      .ok (storedRow layout columns row, lineEnd ++ rest) := by
  cases row with
  | nil => cases h
  | cons time cells =>
    rw [rowBytes] at h
    split at h
    · cases h
    rename_i hlen
    have hcells : cells.length = columns.length := Nat.succ.inj (Decidable.not_not.1 hlen)
    obtain ⟨t, ht, h⟩ := Outcome.bind_eq_ok_iff.1 h
    obtain ⟨bs, hbs, h⟩ := Outcome.bind_eq_ok_iff.1 h
    cases h
    rw [timestampBytes] at ht
    split at ht
    · rename_i n hn
      cases ht
      have htime : cellBytes layout .int64 (.int64 n) = .ok (int64Bytes n) := rfl
      rw [readCells, List.append_assoc, List.append_assoc, readCell_append htime]
      simp only
      rw [readCells_append length hcells hbs]
      simp only [storedRow, hn]
      rfl
    · cases ht

theorem rowBytes_ne_nil {layout : TextLayout} {columns : List CellType} {row : Row} {bytes : Bytes}
    (h : rowBytes layout (.int64 :: columns) row = .ok bytes) : bytes ≠ [] := by
  cases row with
  | nil => cases h
  | cons time cells =>
    rw [rowBytes] at h
    split at h
    · cases h
    obtain ⟨t, -, h⟩ := Outcome.bind_eq_ok_iff.1 h
    obtain ⟨bs, -, h⟩ := Outcome.bind_eq_ok_iff.1 h
    cases h
    exact List.append_ne_nil_of_right_ne_nil _ (List.cons_ne_nil _ _)

/-- **The rows of a table read back as they were stored.** -/
theorem readRowsWithin_flatten {layout : TextLayout} (length : Int64) {columns : List CellType} :
    ∀ {rows : List Row} {bytes : List Bytes} {n : Nat}, rows.length ≤ n →
    rows.mapM (rowBytes layout (.int64 :: columns)) = .ok bytes →
    readRowsWithin layout length (.int64 :: columns) n bytes.flatten =
      .ok (rows.map (storedRow layout columns))
  | [], _, n, _, h => by cases h; cases n <;> rfl
  | row :: rows, _, n + 1, hn, h => by
    obtain ⟨b, bs, hb, hbs, rfl⟩ := Outcome.mapM_cons_eq_ok_iff.1 h
    rw [List.flatten_cons, readRowsWithin, readCells_rowBytes length hb]
    · simp only [bind, Except.bind, readLineEnd, dropBytes?_append]
      rw [readRowsWithin_flatten length (Nat.le_of_succ_le_succ hn) hbs]
      rfl
    · exact List.append_ne_nil_of_left_ne_nil (rowBytes_ne_nil hb) _

end Payload
end SeriesCache
