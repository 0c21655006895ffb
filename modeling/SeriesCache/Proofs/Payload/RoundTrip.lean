import SeriesCache.Proofs.Key.RoundTrip
import SeriesCache.Proofs.Payload.Cells
/-!
# Payloads read back

A payload is taken apart where it was put together (`answer_reads_back`): the text of a key ends at the first
blank that is not escaped, in the bytes as in the characters (`cutKey?_encode`); the length of the rows
tells where the next table starts, whatever bytes the cells have; and a table starts with a brace, which
no line end does.
-/
namespace SeriesCache

open Escaped (Without)

namespace Payload

/-! ## Keys -/

theorem cutKey?_blank (rest : Bytes) : cutKey? (32 :: rest) = some ([], rest) := by
  rw [cutKey?.eq_def]
  rfl

theorem cutKey?_escape (b : UInt8) (rest : Bytes) :
    cutKey? (92 :: b :: rest) = (cutKey? rest).map fun (key, rest) => (92 :: b :: key, rest) := by
  rw [cutKey?.eq_def]
  rfl

theorem cutKey?_plain {b : UInt8} (h32 : b ≠ 32) (h92 : b ≠ 92) (rest : Bytes) :
    cutKey? (b :: rest) = (cutKey? rest).map fun (key, rest) => (b :: key, rest) := by
  rw [cutKey?.eq_def]
  simp only [h32, h92, if_false]

theorem cutKey?_append {bytes : Bytes} (h : ∀ b ∈ bytes, b ≠ 32 ∧ b ≠ 92) (rest : Bytes) :
    cutKey? (bytes ++ rest) = (cutKey? rest).map fun (key, rest) => (bytes ++ key, rest) := by
  induction bytes with
  | nil =>
    rw [List.nil_append]
    exact Option.map_id'.symm
  | cons b bytes ih =>
    obtain ⟨h32, h92⟩ := h b List.mem_cons_self
    rw [List.cons_append, cutKey?_plain h32 h92, ih fun x hx => h x (List.mem_cons_of_mem b hx),
      Option.map_map]
    rfl

theorem ne_of_mem_encodeChar {c : Char} (hb : c ≠ ' ') (hs : c ≠ '\\') :
    ∀ b ∈ Utf8.encodeChar c, b ≠ 32 ∧ b ≠ 92 := by
  intro b hmem
  have hbyte := Utf8.toNat_of_mem_encodeChar hmem
  constructor <;> rintro rfl <;> rcases hbyte with ⟨hc, -⟩ | ⟨hc, -⟩
  · exact hb (Char.toNat_inj.1 hc.symm)
  · exact absurd hc (by decide)
  · exact hs (Char.toNat_inj.1 hc.symm)
  · exact absurd hc (by decide)

theorem ne_of_mem_tail {c : Char} {b : UInt8} {bs : Bytes} (h : Utf8.encodeChar c = b :: bs) :
    ∀ x ∈ bs, x ≠ 32 ∧ x ≠ 92 := by
  intro x hx
  by_cases hc : c.toNat < 0x80
  · rw [Utf8.encodeChar, if_pos hc] at h
    cases h
    cases hx
  · have hbyte := @Utf8.toNat_of_mem_encodeChar c x (by rw [h]; exact List.mem_cons_of_mem b hx)
    constructor <;> rintro rfl <;> rcases hbyte with ⟨-, h'⟩ | ⟨h', -⟩
    · exact hc h'
    · exact absurd h' (by decide)
    · exact hc h'
    · exact absurd h' (by decide)

/-- A scan for the end of a key passes the bytes of a text, whatever comes behind them. -/
def Passed (s : Text) : Prop := ∀ rest, cutKey? (Utf8.encode s ++ rest) =
  (cutKey? rest).map fun cut => (Utf8.encode s ++ cut.1, cut.2)

/-- A backslash skips the first byte of a character, and the others are no blanks. -/
theorem passed_escaped (c : Char) : Passed ['\\', c] := by
  intro rest
  obtain ⟨b, bs, hb⟩ := List.exists_cons_of_ne_nil (Utf8.encodeChar_ne_nil c)
  have hbytes : Utf8.encode ['\\', c] = 92 :: b :: bs := by
    rw [Utf8.encode_cons, Utf8.encode_cons, hb]
    exact congrArg (92 :: b :: ·) (List.append_nil bs)
  rw [hbytes, List.cons_append, List.cons_append, cutKey?_escape, cutKey?_append (ne_of_mem_tail hb), Option.map_map]
  rfl

theorem passed_plain {c : Char} (hb : c ≠ ' ') (hs : c ≠ '\\') : Passed [c] := by
  intro rest
  have hbytes : Utf8.encode [c] = Utf8.encodeChar c := List.append_nil _
  rw [hbytes]
  exact cutKey?_append (ne_of_mem_encodeChar hb hs) rest

theorem Passed.append {s t : Text} (hs : Passed s) (ht : Passed t) : Passed (s ++ t) := by
  intro rest
  rw [Utf8.encode_append, List.append_assoc, hs, ht, Option.map_map]
  simp only [Function.comp_def, List.append_assoc]

theorem passed_of_without {s : Text} (hs : Without (· == ' ') s) : Passed s := by
  induction hs with
  | nil => exact fun rest => Option.map_id'.symm
  | escaped c _ ih => exact (passed_escaped c).append ih
  | plain hc hp _ ih => exact (passed_plain (by simpa using hp) hc).append ih

/-- **A key ends before the blank behind it**, also for a reader of bytes. -/
theorem cutKey?_encode {s : Text} (hs : Without (· == ' ') s) (rest : Bytes) :
    cutKey? (Utf8.encode s ++ 32 :: rest) = some (Utf8.encode s, rest) := by
  rw [passed_of_without hs, cutKey?_blank, Option.map_some, List.append_nil]

/-! ## Tables -/

/-- A table as it is stored under a key: named by the first segment of the key and tagged by its equalities,
a later one in place of an earlier one, with the columns of the key. -/
def storedTable (layout : TextLayout) (key : Key) (t : Table) : Table where
  name := match key.segments with
    | [] => []
    | s :: _ => s.measurement
  tags := match key.segments with
    | [] => .empty
    | s :: _ => Dict.ofList s.tags
  columns := "time".toList :: key.columns.map Column.name
  rows := t.rows.map (storedRow layout (key.columns.map Column.type))

theorem tableOf_told (layout : TextLayout) (key : Key) (t : Table) :
    tableOf { key with aggregation := Key.told key.aggregation, interval := Key.told key.interval }
      (t.rows.map (storedRow layout (key.columns.map Column.type))) = storedTable layout key t := by
  obtain ⟨segments, columns, constraints, aggregation, interval⟩ := key
  cases segments <;> rfl

/-- The text of a key starts with a brace. -/
theorem encode_text_eq_cons (key : Key) : ∃ bytes, Utf8.encode key.text = 123 :: bytes := by
  rw [Key.text, Key.segmentsText, Key.sectionText]
  exact ⟨_, Utf8.encode_cons _ _⟩

/-- A length that a buffer has is read as it was written. -/
theorem int64Of_bigEndian {n : Nat} (h : n ≤ bufferLimit) : (int64Of (bigEndian 8 n)).toInt = n := by
  have hlt : n < 2 ^ 63 := Nat.lt_of_le_of_lt h (by decide)
  have hword : n < Nat.pow 256 8 := Nat.lt_of_le_of_lt h (by decide)
  rw [int64Of, ofBigEndian_bigEndian hword]
  exact Int64.toInt_ofNat_of_lt hlt

/-- What the bytes of a table are made of. -/
theorem tableBytes_eq_ok {layout : TextLayout} {t : Table} {key : Key} {bytes : Bytes}
    (h : tableBytes layout t key = .ok bytes) : ∃ rows,
    t.rows.mapM (rowBytes layout key.columnTypes) = .ok rows ∧ rows.flatten.length ≤ bufferLimit ∧
    bytes = Utf8.encode key.text ++ 32 :: (bigEndian 8 rows.flatten.length ++ lineEnd ++ rows.flatten) := by
  rw [tableBytes] at h
  simp only at h
  split at h
  · cases h
  obtain ⟨rows, hrows, h⟩ := Outcome.bind_eq_ok_iff.1 h
  split at h
  · cases h
  rename_i hlen
  refine ⟨rows, hrows, Nat.le_of_not_lt hlen, ?_⟩
  cases h
  simp only [List.append_assoc]
  rfl

theorem readLineEnd_append (part : PayloadPart) (rest : Bytes) :
    readLineEnd part (lineEnd ++ rest) = .ok rest := by
  rw [readLineEnd, dropBytes?_append]

/-- The rows are no more than their bytes, so these bound the rows that are read. -/
theorem length_le_length_flatten {layout : TextLayout} {columns : List CellType} :
    ∀ {rows : List Row} {bytes : List Bytes},
    rows.mapM (rowBytes layout (.int64 :: columns)) = .ok bytes → rows.length ≤ bytes.flatten.length
  | [], _, _ => Nat.zero_le _
  | row :: rows, _, h => by
    obtain ⟨b, bs, hb, hbs, rfl⟩ := Outcome.mapM_cons_eq_ok_iff.1 h
    have hrest := length_le_length_flatten hbs
    have hne := List.length_pos_iff.2 (rowBytes_ne_nil hb)
    rw [List.flatten_cons, List.length_append, List.length_cons]
    omega

/-- **A table reads back as it was stored**, and the bytes behind it are left. -/
theorem readTable_append {layout : TextLayout} {t : Table} {key : Key} {bytes : Bytes}
    (h : tableBytes layout t key = .ok bytes) (rest : Bytes) :
    readTable layout (bytes ++ rest) = .ok (storedTable layout key t, rest) := by
  obtain ⟨rows, hrows, hlen, rfl⟩ := tableBytes_eq_ok h
  have hcut : cutKey? (Utf8.encode key.text ++ 32 :: (bigEndian 8 rows.flatten.length ++ lineEnd
      ++ rows.flatten) ++ rest) = some (Utf8.encode key.text,
        bigEndian 8 rows.flatten.length ++ (lineEnd ++ (rows.flatten ++ rest))) := by
    rw [List.append_assoc, List.cons_append, cutKey?_encode key.without_text]
    simp only [List.append_assoc]
  have hint := int64Of_bigEndian hlen
  have hnonneg : ¬ int64Of (bigEndian 8 rows.flatten.length) < 0 := by
    rw [Int64.lt_iff_toInt_lt, hint, Int64.toInt_zero]
    exact Int.not_lt.2 (Int.natCast_nonneg _)
  have height := length_bigEndian 8 rows.flatten.length
  have hlines := length_le_length_flatten hrows
  rw [Key.columnTypes] at hrows
  rw [readTable, hcut]
  refine Outcome.bind_eq_ok_iff.2 ⟨key.text, textOf_encode _, ?_⟩
  refine Outcome.bind_eq_ok_iff.2 ⟨_, Outcome.mapError_eq_ok_iff.2 key.read_text, ?_⟩
  rw [take_append height, List.drop_left' height]
  refine Outcome.bind_eq_ok_iff.2 ⟨_, rfl, ?_⟩
  refine Outcome.bind_eq_ok_iff.2 ⟨_, readLineEnd_append .tableHeader _, ?_⟩
  rw [if_neg hnonneg, hint, Int.toNat_natCast]
  simp only
  rw [take_append rfl, List.drop_left]
  refine Outcome.bind_eq_ok_iff.2 ⟨_, rfl, ?_⟩
  refine Outcome.bind_eq_ok_iff.2 ⟨_, readRowsWithin_flatten _ hlines hrows, ?_⟩
  rw [tableOf_told]
  rfl

/-- A table starts with a brace, and so with neither a line end nor the phrase of an empty answer. -/
theorem tableBytes_eq_cons {layout : TextLayout} {t : Table} {key : Key} {bytes : Bytes}
    (h : tableBytes layout t key = .ok bytes) : ∃ rest, bytes = 123 :: rest := by
  obtain ⟨_, -, -, rfl⟩ := tableBytes_eq_ok h
  obtain ⟨front, hkey⟩ := encode_text_eq_cons key
  rw [hkey, List.cons_append]
  exact ⟨_, rfl⟩

/-! ## Answers -/

/-- **Tables read back one after another** until a line end stands where a table would start. -/
theorem readTablesWithin_flatten {layout : TextLayout} : ∀ {tables : List Table} {keys : List Key}
    {bytes : List Bytes} {n : Nat}, tables.length < n → keys.length = tables.length →
    (tables.zip keys).mapM (fun (table, key) => tableBytes layout table key) = .ok bytes →
    readTablesWithin layout n (bytes.flatten ++ lineEnd) =
      .ok (List.zipWith (storedTable layout) keys tables)
  | [], [], _, n + 1, _, _, h => by cases h; rfl
  | t :: tables, key :: keys, _, n + 1, hn, hlen, h => by
    obtain ⟨b, bs, hb, hbs, rfl⟩ := Outcome.mapM_cons_eq_ok_iff.1 h
    have hread := readTable_append hb (bs.flatten ++ lineEnd)
    have hrest := readTablesWithin_flatten (Nat.lt_of_succ_lt_succ hn) (Nat.succ.inj hlen) hbs
    obtain ⟨front, rfl⟩ := tableBytes_eq_cons hb
    have hopen (rest : Bytes) : dropBytes? lineEnd (123 :: rest) = none := rfl
    rw [List.flatten_cons, List.append_assoc, List.cons_append, readTablesWithin, hopen]
    · refine Outcome.bind_eq_ok_iff.2 ⟨_, hread, ?_⟩
      refine Outcome.bind_eq_ok_iff.2 ⟨_, hrest, ?_⟩
      rfl
    · exact List.cons_ne_nil _ _

theorem length_lt_length_append_lineEnd {layout : TextLayout} : ∀ {items : List (Table × Key)}
    {bytes : List Bytes},
    items.mapM (fun (table, key) => tableBytes layout table key) = .ok bytes →
    items.length < (bytes.flatten ++ lineEnd).length
  | [], _, h => by cases h; decide
  | (t, key) :: items, _, h => by
    obtain ⟨b, bs, hb, hbs, rfl⟩ := Outcome.mapM_cons_eq_ok_iff.1 h
    have hrest := length_lt_length_append_lineEnd hbs
    obtain ⟨front, rfl⟩ := tableBytes_eq_cons hb
    rw [List.flatten_cons, List.append_assoc, List.length_append, List.length_cons, List.length_cons]
    omega

theorem flatten_eq_cons {layout : TextLayout} {tables : List Table} {keys : List Key}
    {bytes : List Bytes} (htables : tables ≠ []) (hlen : keys.length = tables.length)
    (h : (tables.zip keys).mapM (fun (table, key) => tableBytes layout table key) = .ok bytes) :
    ∃ rest, bytes.flatten ++ lineEnd = 123 :: rest := by
  obtain ⟨t, tables, rfl⟩ := List.exists_cons_of_ne_nil htables
  obtain ⟨key, keys, rfl⟩ := List.exists_cons_of_length_eq_add_one hlen
  obtain ⟨b, bs, hb, -, rfl⟩ := Outcome.mapM_cons_eq_ok_iff.1 h
  obtain ⟨front, rfl⟩ := tableBytes_eq_cons hb
  exact ⟨_, rfl⟩

theorem tables_ne_nil {answer : Answer} (h : answer.isEmpty = false) : answer.tables ≠ [] := by
  intro hnil
  rw [Answer.isEmpty, hnil] at h
  cases h

theorem encode_of_isEmpty {layout : TextLayout} {answer : Answer} (h : answer.isEmpty = true) (keys : List Key) :
    encode layout answer keys = .ok emptyAnswer := by
  rw [encode, h, if_pos rfl]

theorem encode_eq_ok {layout : TextLayout} {answer : Answer} {keys : List Key} {bytes : Bytes}
    (hanswer : answer.isEmpty = false) (h : encode layout answer keys = .ok bytes) :
    keys.length = answer.tables.length ∧ ∃ bs, bytes = bs.flatten ++ lineEnd ∧
      (answer.tables.zip keys).mapM (fun (table, key) => tableBytes layout table key) = .ok bs := by
  rw [encode, hanswer] at h
  simp only [Bool.false_eq_true, if_false] at h
  split at h
  · cases h
  · rename_i hcount
    obtain ⟨bs, hbs, h⟩ := Outcome.bind_eq_ok_iff.1 h
    cases h
    exact ⟨Decidable.not_not.1 hcount, bs, rfl, hbs⟩

theorem decode_flatten {layout : TextLayout} {tables : List Table} {keys : List Key} {bytes : List Bytes}
    (htables : tables ≠ []) (hlen : keys.length = tables.length)
    (h : (tables.zip keys).mapM (fun (table, key) => tableBytes layout table key) = .ok bytes) :
    decode layout (bytes.flatten ++ lineEnd) = .ok (.ofTables (List.zipWith (storedTable layout) keys tables)) := by
  have hcount : tables.length < (bytes.flatten ++ lineEnd).length := by
    have := length_lt_length_append_lineEnd h
    rwa [List.length_zip, hlen, Nat.min_self] at this
  have hphrase : bytes.flatten ++ lineEnd ≠ emptyAnswer := by
    obtain ⟨front, hfront⟩ := flatten_eq_cons htables hlen h
    rw [hfront]
    rintro ⟨⟩
  rw [decode, if_neg hphrase]
  exact Outcome.bind_eq_ok_iff.2 ⟨_, readTablesWithin_flatten hcount hlen h, rfl⟩

/-- Whatever was written can be read. -/
theorem exists_decode_of_encode {layout : TextLayout} {answer : Answer} {keys : List Key} {bytes : Bytes}
    (h : encode layout answer keys = .ok bytes) : ∃ b, decode layout bytes = .ok b := by
  cases hempty : answer.isEmpty with
  | true =>
    rw [encode_of_isEmpty hempty] at h
    cases h
    exact ⟨.empty, rfl⟩
  | false =>
    obtain ⟨hlen, bs, rfl, hbs⟩ := encode_eq_ok hempty h
    exact ⟨_, decode_flatten (tables_ne_nil hempty) hlen hbs⟩

/-- **Reading undoes writing** for every answer that is not empty, in both layouts and for any texts: a
payload is read without fault, and table by table it gives what was stored under the key of the table. -/
theorem answer_reads_back {layout : TextLayout} {answer : Answer} {keys : List Key} {bytes : Bytes}
    (hanswer : answer.isEmpty = false) (h : encode layout answer keys = .ok bytes) :
    keys.length = answer.tables.length ∧ decode layout bytes =
      .ok (.ofTables (List.zipWith (storedTable layout) keys answer.tables)) := by
  obtain ⟨hlen, bs, rfl, hbs⟩ := encode_eq_ok hanswer h
  exact ⟨hlen, decode_flatten (tables_ne_nil hanswer) hlen hbs⟩

/-- A tag and a name with blanks, cells that are a line end and a NUL, and a time and an integer that were
written as a text and as a float. -/
theorem answer_reads_back_tangled :
    let key : Key := ⟨[⟨"a b".toList, [⟨"x".toList, .eq, "y ".toList⟩, ⟨"x".toList, .eq, "z\\".toList⟩]⟩],
      [⟨"c\r\n".toList, .string⟩, ⟨"n".toList, .int64⟩], [], none, none⟩
    let table : Table := ⟨"m".toList, .empty, ["time".toList, "c".toList, "n".toList],
      [[.string "1970-01-01T00:00:01Z".toList, .string "\r\n\x00".toList, .null], [.int64 5, .null, .int64 7]]⟩
    encode .fixed ⟨[table], none⟩ [key] >>= decode .fixed =
      .ok ⟨[⟨"a b".toList, .ofList [("x".toList, "z\\".toList)],
        ["time".toList, "c\r\n".toList, "n".toList], [[.int64 1000000000, .string "\r\n".toList, .int64 0],
        [.int64 5, .string [], .int64 7]]⟩], none⟩ := by
  intro key table
  have hwritten : (encode .fixed ⟨[table], none⟩ [key]).isOk = true := by decide +kernel
  cases h : encode .fixed ⟨[table], none⟩ [key] with
  | error e =>
    rw [h] at hwritten
    cases hwritten
  | ok bytes => exact (answer_reads_back rfl h).2.trans (congrArg Except.ok (by decide +kernel))

end Payload
end SeriesCache
