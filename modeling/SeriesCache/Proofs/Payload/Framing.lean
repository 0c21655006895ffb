import SeriesCache.Payload.Buffer
import SeriesCache.Proofs.Payload.Cells
import SeriesCache.Proofs.Text.Boundary
/-!
# Cells in a buffer, read back

A cell is put into a buffer as the bytes that it has in a row, or not at all (`Payload.on_putCell`).  So cells that are
put into one buffer in turn, some of which do not fit their columns, are read back as those that do, whatever stands
behind them (`Payload.cells_read_back`).
-/
namespace SeriesCache.Payload

variable {layout : TextLayout}

/-! ## One cell -/

/-- A step that does not fail, and puts some bytes behind those of any buffer. -/
def Writer.Puts (step : Writer Unit) (bytes : Bytes) : Prop := ∀ buffer, step.on buffer = (.ok (), buffer ++ bytes)

theorem puts_put (bytes : Bytes) : (put bytes).Puts bytes := fun _ => rfl

theorem Writer.Puts.seq {first second : Writer Unit} {bytes more : Bytes} (h : first.Puts bytes)
    (hs : second.Puts more) : Writer.Puts (do first; second) (bytes ++ more) := by
  intro buffer
  have hbind : Writer.on (do first; second) buffer =
      ExceptT.bindCont (fun _ => second) (first.on buffer).1 (first.on buffer).2 := rfl
  rw [hbind, h buffer, ← List.append_assoc]
  exact hs (buffer ++ bytes)

theorem puts_putText (layout : TextLayout) (s : Text) : (putText layout s).Puts (textBytes layout s) := by
  cases layout
  all_goals
    simp only [putText, textBytes, Utf8.cut_encode]
    exact (puts_put _).seq (puts_put _)

/-- What is said of bytes, or of why there are none, and the buffer behind them. -/
def appended (buffer : Bytes) : Except PayloadError Bytes → Except PayloadError Unit × Bytes
  | .ok bytes => (.ok (), buffer ++ bytes)
  | .error e => (.error e, buffer)

/-- **A cell is put as the bytes that it has in a row.**  When it has none, the step fails as they do, and the buffer is
left as it was. -/
theorem on_putCell (layout : TextLayout) (type : CellType) (cell : Cell) (buffer : Bytes) :
    (putCell layout type cell).on buffer = appended buffer (cellBytes layout type cell) := by
  cases type with
  | bool => cases cell <;> rfl
  | int64 =>
    cases cell with
    | float64 x =>
      unfold putCell cellBytes
      simp only
      cases Cell.wholeNumber? x <;> rfl
    | _ => rfl
  | float64 => cases cell <;> rfl
  | string =>
    cases cell with
    | null => exact puts_putText layout [] buffer
    | string s => exact puts_putText layout s buffer
    | _ => rfl

/-- The cells that can be put into a column of a type: null, those of the type, any integer as a float and a float as an
integer when it is one. -/
def takes : CellType → Cell → Bool
  | _, .null => true
  | .int64, .float64 x => x.isFinite && x.isIntegral
  | .float64, .int64 _ => true
  | type, cell => cell.type? == some type

theorem isOk_cellBytes (layout : TextLayout) (type : CellType) (cell : Cell) :
    (cellBytes layout type cell).isOk = takes type cell := by
  cases type with
  | int64 =>
    cases cell with
    | float64 x =>
      unfold cellBytes takes Cell.wholeNumber?
      simp only
      cases x.isFinite && x.isIntegral <;> rfl
    | _ => rfl
  | _ => cases cell <;> rfl

/-! ## Cells in turn -/

/-- Cells put into a buffer in turn, each with the type of its column, whether or not those before could be: the ones
that could, and the buffer behind the last one. -/
def putCells (layout : TextLayout) : List (CellType × Cell) → Bytes → List (CellType × Cell) × Bytes
  | [], buffer => ([], buffer)
  | item :: items, buffer => match (putCell layout item.1 item.2).on buffer with
    | (.ok (), buffer) => (item :: (putCells layout items buffer).1, (putCells layout items buffer).2)
    | (.error _, buffer) => putCells layout items buffer

/-- Cells of some types read in turn, as long as they can be, and the bytes that are left. -/
def takeCells (layout : TextLayout) : List CellType → Bytes → Step (List Cell)
  | [], bytes => (.ok [], bytes)
  | type :: types, bytes => match readCell layout type bytes with
    | (.ok cell, rest) => ((takeCells layout types rest).1.map (cell :: ·), (takeCells layout types rest).2)
    | (.error e, rest) => (.error e, rest)

theorem putCells_of_ok {item : CellType × Cell} {bytes : Bytes} (h : cellBytes layout item.1 item.2 = .ok bytes)
    (items : List (CellType × Cell)) (buffer : Bytes) : putCells layout (item :: items) buffer =
      (item :: (putCells layout items (buffer ++ bytes)).1, (putCells layout items (buffer ++ bytes)).2) := by
  rw [putCells, on_putCell, h]
  rfl

theorem putCells_of_error {item : CellType × Cell} {e : PayloadError} (h : cellBytes layout item.1 item.2 = .error e)
    (items : List (CellType × Cell)) (buffer : Bytes) :
    putCells layout (item :: items) buffer = putCells layout items buffer := by
  rw [putCells, on_putCell, h]
  rfl

theorem written_putCells (layout : TextLayout) : ∀ (items : List (CellType × Cell)) (buffer : Bytes),
    (putCells layout items buffer).1 = items.filter fun item => takes item.1 item.2
  | [], _ => rfl
  | item :: items, buffer => by
    have htakes := isOk_cellBytes layout item.1 item.2
    cases h : cellBytes layout item.1 item.2 with
    | ok bytes =>
      have hheld : takes item.1 item.2 = true := by rw [← htakes, h]; rfl
      rw [putCells_of_ok h, List.filter_cons, if_pos hheld, written_putCells layout items]
    | error e =>
      have hheld : takes item.1 item.2 = false := by rw [← htakes, h]; rfl
      rw [putCells_of_error h, List.filter_cons, if_neg (Bool.eq_false_iff.1 hheld), written_putCells layout items]

/-- What is put into a buffer stands behind what it had, and reads back in front of anything. -/
theorem takeCells_putCells (layout : TextLayout) : ∀ (items : List (CellType × Cell)) (buffer : Bytes), ∃ bytes,
    (putCells layout items buffer).2 = buffer ++ bytes ∧
    ∀ rest, takeCells layout ((putCells layout items buffer).1.map Prod.fst) (bytes ++ rest) =
      (.ok ((putCells layout items buffer).1.map fun item => item.2.stored layout item.1), rest)
  | [], buffer => ⟨[], (List.append_nil buffer).symm, fun _ => rfl⟩
  | item :: items, buffer => by
    cases h : cellBytes layout item.1 item.2 with
    | error e =>
      rw [putCells_of_error h]
      exact takeCells_putCells layout items buffer
    | ok front =>
      obtain ⟨bytes, hbuffer, hread⟩ := takeCells_putCells layout items (buffer ++ front)
      rw [putCells_of_ok h]
      refine ⟨front ++ bytes, by rw [hbuffer, List.append_assoc], fun rest => ?_⟩
      rw [List.map_cons, takeCells, List.append_assoc, readCell_append h]
      simp only
      rw [hread rest]
      rfl

/-- **Cells that are put into a buffer read back, one behind the other.**  A cell that does not fit its column leaves the
buffer as it was.  Those that do are read back at their types, as they are stored, from the buffer with anything behind
it, and just that is left. -/
theorem cells_read_back (layout : TextLayout) :
    (∀ type cell buffer e after, (putCell layout type cell).on buffer = (.error e, after) → after = buffer) ∧
    ∀ items rest, (putCells layout items []).1 = items.filter (fun item => takes item.1 item.2) ∧
      takeCells layout ((putCells layout items []).1.map Prod.fst) ((putCells layout items []).2 ++ rest) =
        (.ok ((putCells layout items []).1.map fun item => item.2.stored layout item.1), rest) := by
  constructor
  · intro type cell buffer e after h
    rw [on_putCell] at h
    cases hbytes : cellBytes layout type cell with
    | ok bytes =>
      rw [hbytes] at h
      cases h
    | error e =>
      rw [hbytes] at h
      cases h
      rfl
  · intro items rest
    obtain ⟨bytes, hbuffer, hread⟩ := takeCells_putCells layout items []
    refine ⟨written_putCells layout items [], ?_⟩
    rw [hbuffer, List.nil_append]
    exact hread rest

/-- A text of 26 bytes, which is cut in front of its last character, a cell that does not fit, a float that is an
integer, and a text that ends in a NUL. -/
theorem cells_read_back_cut :
    let items : List (CellType × Cell) := [(.string, .string (List.replicate 13 'é')), (.bool, .int64 1),
      (.int64, .float64 ⟨0x401C000000000000⟩), (.string, .string "a\x00".toList)]
    (putCell .fixed .bool (.int64 1)).on [7] = (.error (.conversion (.int64 1) .bool), [7]) ∧
    takeCells .fixed [.string, .int64, .string] ((putCells .fixed items []).2 ++ [0]) =
      (.ok [.string (List.replicate 12 'é'), .int64 7, .string "a".toList], [0]) := by
  intro items
  obtain ⟨hfailed, hread⟩ := cells_read_back .fixed
  have hrefused : ((putCell .fixed .bool (.int64 1)).on [7]).1 = .error (.conversion (.int64 1) .bool) := rfl
  refine ⟨Prod.ext hrefused (hfailed .bool (.int64 1) [7] _ _ (Prod.ext hrefused rfl)), ?_⟩
  obtain ⟨hwritten, hread⟩ := hread items [0]
  have hheld : items.filter (fun item => takes item.1 item.2) =
      [(.string, .string (List.replicate 13 'é')), (.int64, .float64 ⟨0x401C000000000000⟩),
        (.string, .string "a\x00".toList)] := by decide
  rw [hwritten, hheld] at hread
  exact hread.trans (Prod.ext (congrArg Except.ok (by decide)) rfl)

end SeriesCache.Payload
