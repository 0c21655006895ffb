import SeriesCache.Proofs.Payload.RoundTrip
/-!
# Where a payload ends

The bytes of a table tell how far it reaches: its key ends before a blank, and the number behind it counts the bytes
of the rows (`Payload.Spans`).  Readers of both layouts go by that alone, so bytes that are read without fault and
agree with a payload as far as both reach are the payload, no less and no more (`Payload.end_of_decode`).  A
payload that is cut short is refused, and so is one with bytes behind it.
-/
namespace SeriesCache.Payload

open Escaped (Without)

variable {layout layout' : TextLayout}

/-! ## Tables -/

/-- A table with the bytes of its key stands at the front, and the rest behind it: the key with a blank, the length
of the rows in eight bytes, a line end, and as many bytes. -/
def Spans (key bytes rest : Bytes) : Prop :=
  ∃ count rows, cutKey? bytes = some (key, count ++ (lineEnd ++ (rows ++ rest))) ∧ count.length = 8 ∧
    rows.length = (int64Of count).toInt.toNat

/-- Where a key ends does not depend on what comes later. -/
theorem cutKey?_append_of_some : ∀ {bytes key rest : Bytes} (more : Bytes), cutKey? bytes = some (key, rest) →
    cutKey? (bytes ++ more) = some (key, rest ++ more)
  | [], _, _, _, h => by cases h
  | a :: bytes, key, rest, more, h => by
    by_cases h32 : a = 32
    · subst h32
      rw [cutKey?_blank] at h
      cases h
      exact cutKey?_blank _
    by_cases h92 : a = 92
    · subst h92
      cases bytes with
      | nil => cases h
      | cons b bytes =>
        rw [cutKey?_escape] at h
        obtain ⟨⟨key, rest⟩, hcut, h⟩ := Option.map_eq_some_iff.1 h
        cases h
        rw [List.cons_append, List.cons_append, cutKey?_escape, cutKey?_append_of_some more hcut]
        rfl
    · rw [cutKey?_plain h32 h92] at h
      obtain ⟨⟨key, rest⟩, hcut, h⟩ := Option.map_eq_some_iff.1 h
      cases h
      rw [List.cons_append, cutKey?_plain h32 h92, cutKey?_append_of_some more hcut]
      rfl

namespace Spans

variable {key key' bytes rest rest' : Bytes}

theorem append (h : Spans key bytes rest) (more : Bytes) : Spans key (bytes ++ more) (rest ++ more) := by
  obtain ⟨count, rows, hcut, hcount, hrows⟩ := h
  refine ⟨count, rows, ?_, hcount, hrows⟩
  rw [cutKey?_append_of_some more hcut]
  simp only [List.append_assoc]

/-- **A table ends in one place.** -/
theorem unique (h : Spans key bytes rest) (h' : Spans key' bytes rest') : key = key' ∧ rest = rest' := by
  obtain ⟨count, rows, hcut, hcount, hrows⟩ := h
  obtain ⟨count', rows', hcut', hcount', hrows'⟩ := h'
  rw [hcut] at hcut'
  obtain ⟨hkey, hbehind⟩ := Prod.mk.inj (Option.some.inj hcut')
  obtain ⟨rfl, htail⟩ := List.append_inj hbehind (hcount.trans hcount'.symm)
  have hrest := List.append_cancel_left htail
  exact ⟨hkey, (List.append_inj hrest (hrows.trans hrows'.symm)).2⟩

end Spans

theorem eq_of_take {n : Nat} {part : PayloadPart} {bytes front rest : Bytes}
    (h : take n part bytes = (.ok front, rest)) : front.length = n ∧ bytes = front ++ rest := by
  unfold take at h
  split at h
  · rename_i hsplit
    cases h
    exact (eq_of_splitBytes? hsplit).symm
  · cases h

theorem exists_of_take {n : Nat} {part : PayloadPart} {bytes front : Bytes}
    (h : (take n part bytes).1 = .ok front) : front.length = n ∧ bytes = front ++ bytes.drop n := by
  obtain ⟨rfl, hbytes⟩ := eq_of_take (Prod.ext h rfl)
  refine ⟨rfl, ?_⟩
  rw [hbytes, List.drop_left]

theorem eq_of_readLineEnd {part : PayloadPart} {bytes rest : Bytes} (h : readLineEnd part bytes = .ok rest) :
    bytes = lineEnd ++ rest := by
  unfold readLineEnd at h
  split at h
  · rename_i rest' hdrop
    cases h
    exact eq_of_dropBytes? hdrop
  · cases h

/-- What is read as a table: the text of a key, the length of the rows, and rows of that length. -/
theorem readTable_eq_ok {bytes rest : Bytes} {t : Table} (h : readTable layout bytes = .ok (t, rest)) :
    ∃ keyBytes s key count data rows, cutKey? bytes = some (keyBytes, count ++ (lineEnd ++ (data ++ rest))) ∧
      textOf keyBytes = .ok s ∧ Key.read s = .ok key ∧ count.length = 8 ∧ ¬ int64Of count < 0 ∧
      data.length = (int64Of count).toInt.toNat ∧
      readRowsWithin layout (int64Of count) key.columnTypes data.length data = .ok rows ∧ t = tableOf key rows := by
  unfold readTable at h
  split at h
  · cases h
  rename_i keyBytes behind hcut
  obtain ⟨s, hs, h⟩ := Outcome.bind_eq_ok_iff.1 h
  obtain ⟨key, hkey, h⟩ := Outcome.bind_eq_ok_iff.1 h
  obtain ⟨count, hcount, h⟩ := Outcome.bind_eq_ok_iff.1 h
  obtain ⟨tail, htail, h⟩ := Outcome.bind_eq_ok_iff.1 h
  simp only at h
  split at h
  · cases h
  rename_i hnonneg
  obtain ⟨data, hdata, h⟩ := Outcome.bind_eq_ok_iff.1 h
  obtain ⟨rows, hrows, h⟩ := Outcome.bind_eq_ok_iff.1 h
  cases h
  obtain ⟨hcount, hbehind⟩ := exists_of_take hcount
  obtain ⟨hdata, htail'⟩ := exists_of_take hdata
  refine ⟨keyBytes, s, key, count, data, rows, ?_, hs, Outcome.mapError_eq_ok_iff.1 hkey, hcount, hnonneg, hdata,
    hrows, rfl⟩
  rw [hcut, hbehind, eq_of_readLineEnd htail, ← htail']

/-- **What is read as a table** starts with the text of a key, and ends where its length says. -/
theorem spans_of_readTable {bytes rest : Bytes} {t : Table} (h : readTable layout bytes = .ok (t, rest)) :
    ∃ keyBytes s key, Spans keyBytes bytes rest ∧ textOf keyBytes = .ok s ∧ Key.read s = .ok key := by
  obtain ⟨keyBytes, s, key, count, data, -, hcut, hs, hkey, hcount, -, hdata, -⟩ := readTable_eq_ok h
  exact ⟨keyBytes, s, key, ⟨count, data, hcut, hcount, hdata⟩, hs, hkey⟩

/-- **What is written for a table** ends where its length says. -/
theorem spans_tableBytes {t : Table} {key : Key} {bytes : Bytes} (h : tableBytes layout t key = .ok bytes)
    (rest : Bytes) : Spans (Utf8.encode key.text) (bytes ++ rest) rest := by
  obtain ⟨rows, -, hlen, rfl⟩ := tableBytes_eq_ok h
  refine ⟨bigEndian 8 rows.flatten.length, rows.flatten, ?_, length_bigEndian 8 _, ?_⟩
  · rw [List.append_assoc, List.cons_append, cutKey?_encode key.without_text]
    simp only [List.append_assoc]
  · rw [int64Of_bigEndian hlen, Int.toNat_natCast]

/-! ## Answers -/

/-- Bytes that start as a table or as the phrase of an empty answer do start no line end. -/
theorem dropBytes?_lineEnd_of_ne {a : UInt8} (h : a ≠ 13) (bytes : Bytes) : dropBytes? lineEnd (a :: bytes) = none := by
  rw [lineEnd, dropBytes?, if_neg (Ne.symm h)]

/-- **Tables are read to the line end behind the last one.**  Let bytes that are read as tables agree with bytes
written for tables, with whatever stands behind both. -/
theorem end_of_readTables : ∀ {items : List (Table × Key)} {written : List Bytes} {tables : List Table}
    {n : Nat} {bytes more behind : Bytes},
    items.mapM (fun (table, key) => tableBytes layout table key) = .ok written →
    readTablesWithin layout' n bytes = .ok tables → bytes ++ more = written.flatten ++ lineEnd ++ behind →
    more = behind
  | _, _, _, n, [], _, _, _, hread, _ => by cases n <;> cases hread
  | _, _, _, 0, _ :: _, _, _, _, hread, _ => by cases hread
  | [], _, _, n + 1, a :: bytes, more, behind, hwritten, hread, heq => by
    rw [List.mapM_nil] at hwritten
    cases hwritten
    rw [List.flatten_nil, List.nil_append] at heq
    unfold readTablesWithin at hread
    split at hread
    · rename_i hdrop
      rw [eq_of_dropBytes? hdrop, List.append_nil] at heq
      exact List.append_cancel_left heq
    · cases hread
    · -- Only a lone carriage return agrees with the line end and does not start with it.
      rename_i hdrop
      obtain ⟨rfl, htail⟩ := List.cons.inj heq
      cases bytes with
      | nil => cases hread
      | cons b bytes =>
        obtain ⟨rfl, -⟩ := List.cons.inj htail
        cases hdrop
  | (t, key) :: items, _, _, n + 1, a :: bytes, more, behind, hwritten, hread, heq => by
    obtain ⟨b, bs, hb, hbs, rfl⟩ := Outcome.mapM_cons_eq_ok_iff.1 hwritten
    rw [List.flatten_cons, List.append_assoc, List.append_assoc] at heq
    have hfirst : a = 123 := by
      obtain ⟨front, rfl⟩ := tableBytes_eq_cons hb
      exact (List.cons.inj heq).1
    rw [readTablesWithin, dropBytes?_lineEnd_of_ne (by rw [hfirst]; decide)] at hread
    · obtain ⟨⟨table, rest⟩, htable, hread⟩ := Outcome.bind_eq_ok_iff.1 hread
      obtain ⟨rows, hread, -⟩ := Outcome.bind_eq_ok_iff.1 hread
      obtain ⟨keyBytes, s, k, hspans, -⟩ := spans_of_readTable htable
      have hrest := (heq ▸ hspans.append more).unique (spans_tableBytes hb (bs.flatten ++ (lineEnd ++ behind)))
      refine end_of_readTables hbs hread ?_
      rw [hrest.2, List.append_assoc]
    · exact List.cons_ne_nil _ _

theorem cutKey?_emptyAnswer (rest : Bytes) :
    cutKey? (emptyAnswer ++ rest) = some (Utf8.encode emptyWord, Utf8.encode "response".toList ++ rest) := by
  have hphrase : emptyAnswer = Utf8.encode emptyWord ++ 32 :: Utf8.encode "response".toList := by decide
  rw [hphrase, List.append_assoc]
  exact cutKey?_encode (Without.of_all (by decide)) _

theorem read_emptyWord (key : Key) : Key.read emptyWord ≠ .ok key := by
  intro h
  have hrefused : (Key.read emptyWord).isOk = false := by decide
  rw [h] at hrefused
  cases hrefused

/-- The phrase of an empty answer starts no table: its first word is not the text of a key. -/
theorem readTable_emptyAnswer {bytes more behind rest : Bytes} {t : Table}
    (heq : bytes ++ more = emptyAnswer ++ behind) : readTable layout bytes ≠ .ok (t, rest) := by
  intro h
  obtain ⟨keyBytes, s, key, hspans, hs, hkey⟩ := spans_of_readTable h
  obtain ⟨count, rows, hcut, -⟩ := hspans.append more
  rw [heq, cutKey?_emptyAnswer] at hcut
  obtain ⟨rfl, -⟩ := Prod.mk.inj (Option.some.inj hcut)
  rw [textOf_encode] at hs
  cases hs
  exact read_emptyWord key hkey

/-- **A payload tells its own end.**  Bytes that are read without fault, and agree with a payload as far as both
reach, reach as far as the payload. -/
theorem end_of_decode {answer read : Answer} {keys : List Key} {payload bytes more behind : Bytes}
    (h : encode layout answer keys = .ok payload) (hread : decode layout' bytes = .ok read)
    (heq : bytes ++ more = payload ++ behind) : more = behind := by
  have htables (hne : bytes ≠ emptyAnswer) : ∃ tables, readTablesWithin layout' bytes.length bytes = .ok tables := by
    rw [decode, if_neg hne] at hread
    obtain ⟨tables, htables, -⟩ := Outcome.bind_eq_ok_iff.1 hread
    exact ⟨tables, htables⟩
  cases hempty : answer.isEmpty with
  | true =>
    rw [encode_of_isEmpty hempty] at h
    cases h
    by_cases hphrase : bytes = emptyAnswer
    · rw [hphrase] at heq
      exact List.append_cancel_left heq
    · obtain ⟨tables, htables⟩ := htables hphrase
      cases bytes with
      | nil => cases htables
      | cons a bytes =>
        have hfirst : a = 101 := (List.cons.inj heq).1
        rw [List.length_cons, readTablesWithin, dropBytes?_lineEnd_of_ne (by rw [hfirst]; decide)] at htables
        · obtain ⟨⟨table, rest⟩, htable, -⟩ := Outcome.bind_eq_ok_iff.1 htables
          exact absurd htable (readTable_emptyAnswer heq)
        · exact List.cons_ne_nil _ _
  | false =>
    obtain ⟨hlen, bs, rfl, hbs⟩ := encode_eq_ok hempty h
    have hphrase : bytes ≠ emptyAnswer := by
      rintro rfl
      obtain ⟨front, hfront⟩ := flatten_eq_cons (tables_ne_nil hempty) hlen hbs
      rw [hfront] at heq
      cases heq
    obtain ⟨tables, htables⟩ := htables hphrase
    exact end_of_readTables hbs htables heq

/-- **A payload is read whole or not at all.**  Readers of both layouts refuse what is left of it when it is cut
anywhere, and what it becomes when anything is put behind it; so no payload, of either layout, starts with
another one. -/
theorem refused_unless_whole {answer : Answer} {keys : List Key} {payload : Bytes}
    (h : encode layout answer keys = .ok payload) :
    (∀ reader front, front <+: payload → front ≠ payload → ∃ e, decode reader front = .error e) ∧
    (∀ reader behind, behind ≠ [] → ∃ e, decode reader (payload ++ behind) = .error e) ∧
    ∀ writer answer' keys' payload', encode writer answer' keys' = .ok payload' → payload' <+: payload →
      payload' = payload := by
  have hcut (reader : TextLayout) (front : Bytes) (hfront : front <+: payload) (hne : front ≠ payload) :
      ∃ e, decode reader front = .error e := by
    obtain ⟨more, hmore⟩ := hfront
    cases hread : decode reader front with
    | error e => exact ⟨e, rfl⟩
    | ok read =>
      have hnil : more = [] := end_of_decode h hread (by rw [hmore, List.append_nil])
      rw [hnil, List.append_nil] at hmore
      exact absurd hmore hne
  refine ⟨hcut, fun reader behind hbehind => ?_, fun writer answer' keys' payload' h' hfront => ?_⟩
  · cases hread : decode reader (payload ++ behind) with
    | error e => exact ⟨e, rfl⟩
    | ok read => exact absurd (end_of_decode h hread (List.append_nil _)).symm hbehind
  · refine Decidable.byContradiction fun hne => ?_
    obtain ⟨e, he⟩ := hcut writer payload' hfront hne
    obtain ⟨read, hread⟩ := exists_decode_of_encode h'
    rw [he] at hread
    cases hread

/-- A cell of two line ends, behind which the payload is cut, and one more line end behind the payload. -/
theorem refused_unless_whole_lineEnds :
    let key : Key := ⟨[⟨"m".toList, []⟩], [⟨"c".toList, .string⟩], [], none, none⟩
    let table : Table := ⟨"m".toList, .empty, ["time".toList, "c".toList], [[.int64 5, .string "\r\n\r\n".toList]]⟩
    ∃ payload, encode .counted ⟨[table], none⟩ [key] = .ok payload ∧
      (payload.take (payload.length - 4)).drop (payload.length - 8) = lineEnd ++ lineEnd ∧
      (∃ e, decode .counted (payload.take (payload.length - 4)) = .error e) ∧
      ∃ e, decode .counted (payload ++ lineEnd) = .error e := by
  intro key table
  have hwritten : (encode .counted ⟨[table], none⟩ [key]).toOption.map (fun payload => (payload.length,
      (payload.take (payload.length - 4)).drop (payload.length - 8))) = some (74, lineEnd ++ lineEnd) := by
    decide
  cases h : encode .counted ⟨[table], none⟩ [key] with
  | error e =>
    rw [h] at hwritten
    cases hwritten
  | ok payload =>
    rw [h] at hwritten
    obtain ⟨hlength, hcell⟩ := Prod.mk.inj (Option.some.inj hwritten)
    have hcut : payload.take (payload.length - 4) ≠ payload := by
      intro heq
      have := congrArg List.length heq
      rw [List.length_take, hlength] at this
      cases this
    obtain ⟨hshort, hlong, -⟩ := refused_unless_whole h
    exact ⟨payload, rfl, hcell, hshort .counted _ (List.take_prefix _ _) hcut, hlong .counted _ (List.cons_ne_nil _ _)⟩

end SeriesCache.Payload
