import SeriesCache.Proofs.Key.Canonical
import SeriesCache.Proofs.Query.Printing.Select
/-!
# Intervals in keys

A key holds the interval that a query groups by in its printed form, and the offset behind it with a sign of its own.  A
printed duration is read back, and no sign goes on with it, so the interval is known from what is read in front, and the
offset from the rest (`Request.intervalText_inj`).  Keys therefore tell apart all intervals with their offsets that queries
name, however these are spelled (`Duration.durations_read_back`).
-/
namespace SeriesCache

open Text (Lacks)

variable {i i' : Duration} {o o' : Option Duration}

/-- The interval that a dimension names, with its offset. -/
def Dimension.interval? : Dimension → Option (Duration × Option Duration)
  | time interval offset => some (interval, offset)
  | _ => none

/-- The interval that a statement groups by, with its offset; of several the last one counts. -/
def Select.interval? (s : Select) : Option (Duration × Option Duration) :=
  (s.dimensions.filterMap Dimension.interval?).getLast?

theorem Dimension.eq_time_of_interval? {d : Dimension} (h : d.interval? = some (i, o)) : d = time i o := by
  cases d with
  | time => cases h; rfl
  | _ => cases h

/-- The intervals of a statement that was read are made of durations that were read. -/
theorem Select.reads_of_interval? {q : Text} {s : Select} (hread : read q = .ok s) (h : s.interval? = some (i, o)) :
    (Dimension.time i o).Reads := by
  obtain ⟨d, hd, hinterval⟩ := List.mem_filterMap.1 (List.mem_of_getLast? h)
  rw [← Dimension.eq_time_of_interval? hinterval]
  exact dimensions_of_read Dimension.takes_reads hread d hd

namespace Duration

/-- A duration below zero is printed with a sign in front. -/
theorem text_of_neg {d : Duration} (h : d.nanos < 0) : ∃ t, d.text = '-' :: t := by
  obtain ⟨k, unit, hunit, htext, hk⟩ := text_eq d
  have hneg : k < 0 := by
    rw [Int64.lt_iff_toInt_lt, Int64.toInt_zero, ← hk] at h
    exact Int.neg_of_mul_neg_left h (Int.natCast_pos.2 (unit_pos unit hunit))
  rw [htext, Decimal.intText_eq, decide_eq_true hneg]
  exact ⟨_, rfl⟩

end Duration

namespace Request

/-! ## One interval -/

/-- An offset behind its interval, with a sign in any case. -/
def offsetText : Option Duration → Text
  | none => []
  | some offset => if offset.nanos < 0 then offset.text else '+' :: offset.text

theorem intervalText_eq (i : Duration) (o : Option Duration) : intervalText i o = i.text ++ offsetText o := by
  cases o with
  | none => exact (List.append_nil _).symm
  | some o => exact (apply_ite (i.text ++ ·) _ _ _).symm

/-- What is read of an offset: a plus is passed over, and a minus belongs to the duration. -/
def offset? : Text → Option Duration
  | '+' :: s => Duration.read? s
  | s => Duration.read? s

theorem offset?_offsetText (ho : ∀ d ∈ o, d.nanos ≠ Int64.minValue) : offset? (offsetText o) = o := by
  cases o with
  | none => rfl
  | some d =>
    obtain ⟨w, htext, hread⟩ := Duration.exists_printed_fits (ho d rfl)
    rw [← htext] at hread
    show offset? (if d.nanos < 0 then d.text else '+' :: d.text) = some d
    split
    · rename_i hneg
      obtain ⟨t, ht⟩ := Duration.text_of_neg hneg
      rw [ht] at hread ⊢
      exact hread
    · exact hread

theorem lacks_offsetText (o : Option Duration) : Lacks Text.isWordPart (offsetText o) := by
  cases o with
  | none => rfl
  | some d =>
    show Lacks Text.isWordPart (if d.nanos < 0 then d.text else '+' :: d.text)
    split
    · rename_i hneg
      obtain ⟨t, ht⟩ := Duration.text_of_neg hneg
      rw [ht]
      rfl
    · rfl

/-- The interval is read off the front. -/
theorem reader_intervalText (hi : i.nanos ≠ Int64.minValue) (o : Option Duration) :
    Duration.reader (intervalText i o) = .found i (offsetText o) := by
  rw [intervalText_eq]
  exact Duration.again_text_word hi _ (lacks_offsetText o)

/-- **Intervals with offsets are told apart by their texts.** -/
theorem intervalText_inj (h : (Dimension.time i o).Reads) (h' : (Dimension.time i' o').Reads)
    (htext : intervalText i o = intervalText i' o') : i = i' ∧ o = o' := by
  have hfound := reader_intervalText h.1 o
  rw [htext, reader_intervalText h'.1 o'] at hfound
  obtain ⟨hi, ho⟩ := Outcome.found.inj hfound
  refine ⟨hi.symm, ?_⟩
  rw [← offset?_offsetText h.2, ← ho, offset?_offsetText h'.2]

theorem intervalText_ne_emptyWord (hi : i.nanos ≠ Int64.minValue) (o : Option Duration) :
    intervalText i o ≠ emptyWord := by
  intro hword
  have hfound := reader_intervalText hi o
  rw [hword] at hfound
  have hrefused : Duration.reader emptyWord = .refused := by decide
  cases hrefused.symm.trans hfound

/-! ## Intervals of requests -/

theorem intervalOf_eq_map (s : Select) : intervalOf s.dimensions = s.interval?.map fun p => intervalText p.1 p.2 := by
  have htext : timeText? = fun d => d.interval?.map fun p => intervalText p.1 p.2 := by
    funext d
    cases d <;> rfl
  rw [intervalOf_eq, htext, Select.interval?, ← List.getLast?_map, List.map_filterMap]

variable {context context' : Context} {q q' : Text} {r r' : Request}

theorem interval_keyOf (hread : read context q = .ok r) (catalog : Catalog) (a : Answer) :
    (r.keyOf catalog a).interval = r.statement.interval?.map fun p => intervalText p.1 p.2 := by
  obtain ⟨-, s, m, f, -, -, -, rfl⟩ := read_eq_ok_iff.1 hread
  exact intervalOf_eq_map s

/-- Every interval of a request that was read is made of durations that were read. -/
theorem reads_of_interval? (hread : read context q = .ok r) (h : r.statement.interval? = some (i, o)) :
    (Dimension.time i o).Reads := by
  obtain ⟨-, s, m, f, hselect, -, -, rfl⟩ := read_eq_ok_iff.1 hread
  exact Select.reads_of_interval? hselect h

theorem readComponent_interval (hread : read context q = .ok r) (catalog : Catalog) (a : Answer) :
    Key.readComponent (Key.componentText (r.keyOf catalog a).interval) = (r.keyOf catalog a).interval := by
  rw [Key.readComponent_componentText, Key.told_eq_self_iff, interval_keyOf hread]
  intro hword
  obtain ⟨⟨i, o⟩, hinterval, htext⟩ := Option.map_eq_some_iff.1 hword
  exact intervalText_ne_emptyWord (reads_of_interval? hread hinterval).1 o htext

/-- **Keys hold the same text for an interval exactly when it is the same interval**, with the same offset. -/
theorem componentText_interval_iff (hread : read context q = .ok r) (hread' : read context' q' = .ok r')
    (catalog catalog' : Catalog) (a a' : Answer) :
    Key.componentText (r.keyOf catalog a).interval = Key.componentText (r'.keyOf catalog' a').interval ↔
      r.statement.interval? = r'.statement.interval? := by
  constructor
  · intro htext
    have hsame : (r.keyOf catalog a).interval = (r'.keyOf catalog' a').interval := by
      rw [← readComponent_interval hread, htext, readComponent_interval hread']
    rw [interval_keyOf hread, interval_keyOf hread'] at hsame
    cases hinterval : r.statement.interval? with
    | none =>
      rw [hinterval, Option.map_none, eq_comm, Option.map_eq_none_iff] at hsame
      exact hsame.symm
    | some p =>
      rw [hinterval, Option.map_some, eq_comm, Option.map_eq_some_iff] at hsame
      obtain ⟨p', hinterval', htext'⟩ := hsame
      obtain ⟨hi, ho⟩ := intervalText_inj (reads_of_interval? hread hinterval) (reads_of_interval? hread' hinterval')
        htext'.symm
      rw [hinterval']
      exact congrArg some (Prod.ext hi ho)
  · intro hsame
    rw [interval_keyOf hread, interval_keyOf hread', hsame]

end Request

namespace Duration

/-- **Durations read back, and keys tell intervals apart.**  A printed duration that has an opposite stands for itself,
alone and in front of a text that goes on with no word.  The intervals that queries name have one text only when they are
one interval with one offset, and two keys agree in that component exactly when their queries do, in whatever units each
of them is written. -/
theorem durations_read_back :
    (∀ d : Duration, d.nanos ≠ Int64.minValue → read? d.text = some d ∧
      ∀ rest : Text, Text.startsWith Text.isWordPart rest = false → reader (d.text ++ rest) = .found d rest) ∧
    (∀ (q q' : Text) (s s' : Select), Select.read q = .ok s → Select.read q' = .ok s' →
      ∀ (i i' : Duration) (o o' : Option Duration), .time i o ∈ s.dimensions → .time i' o' ∈ s'.dimensions →
        (Request.intervalText i o = Request.intervalText i' o' ↔ i = i' ∧ o = o')) ∧
    ∀ (context context' : Context) (q q' : Text) (r r' : Request), Request.read context q = .ok r →
      Request.read context' q' = .ok r' → ∀ (catalog catalog' : Catalog) (a a' : Answer),
        (Key.componentText (r.keyOf catalog a).interval = Key.componentText (r'.keyOf catalog' a').interval ↔
          r.statement.interval? = r'.statement.interval?) := by
  refine ⟨fun d hd => ⟨?_, again_text_word hd⟩, fun q q' s s' hread hread' i i' o o' hi hi' => ⟨fun htext => ?_, ?_⟩,
    fun _ _ _ _ _ _ hread hread' => Request.componentText_interval_iff hread hread'⟩
  · obtain ⟨w, htext, hw⟩ := exists_printed_fits hd
    rw [htext, hw]
  · have hreads := Select.dimensions_of_read Dimension.takes_reads hread _ hi
    have hreads' := Select.dimensions_of_read Dimension.takes_reads hread' _ hi'
    exact Request.intervalText_inj hreads hreads' htext
  · rintro ⟨rfl, rfl⟩
    rfl

namespace Hourly

def context : Context := ⟨.empty, 0⟩

/-- Counts by the hour. -/
def statement (measurement : Text) (offset : Option Duration) : Select where
  fields := [⟨.call "count".toList [.name "v".toList none], none⟩]
  source := ⟨none, none, .name measurement⟩
  condition := none
  dimensions := [.time ⟨3600000000000⟩ offset]
  fill := none
  order := none
  limit := none
  offset := none
  seriesLimit := none
  seriesOffset := none
  zone := none

def request (measurement : Text) : Request :=
  .ofFindings context measurement (statement measurement (some ⟨-90000000000⟩)) .none

theorem read_seconds :
    Request.read context "SELECT count(v) FROM m GROUP BY time(60m, -90s)".toList = .ok (request "m".toList) :=
  Outcome.eq_ok_of_toOption (by decide +kernel)

theorem read_minutes :
    Request.read context "SELECT count(v) FROM n GROUP BY time(1h,-1m30s)".toList = .ok (request "n".toList) :=
  Outcome.eq_ok_of_toOption (by decide +kernel)

theorem select_plain :
    Select.read "SELECT count(v) FROM m GROUP BY time(1h)".toList = .ok (statement "m".toList none) :=
  Outcome.eq_ok_of_toOption (by decide +kernel)

theorem select_zero :
    Select.read "SELECT count(v) FROM m GROUP BY time(1h,0s)".toList = .ok (statement "m".toList (some ⟨0⟩)) :=
  Outcome.eq_ok_of_toOption (by decide +kernel)

end Hourly

/-- No offset is told from an offset of nothing, and a minute and a half is not told from ninety seconds. -/
theorem durations_read_back_hourly :
    reader "-90s, 1h".toList = .found ⟨-90000000000⟩ ", 1h".toList ∧
    Request.intervalText ⟨3600000000000⟩ none ≠ Request.intervalText ⟨3600000000000⟩ (some ⟨0⟩) ∧
    Key.componentText ((Hourly.request "m".toList).keyOf .empty .empty).interval =
      Key.componentText ((Hourly.request "n".toList).keyOf .empty .empty).interval := by
  obtain ⟨hdurations, hpairs, hkeys⟩ := durations_read_back
  refine ⟨(hdurations ⟨-90000000000⟩ (by decide)).2 ", 1h".toList rfl, fun htext => ?_, ?_⟩
  · have hsame := (hpairs _ _ _ _ Hourly.select_plain Hourly.select_zero _ _ _ _ List.mem_cons_self
      List.mem_cons_self).1 htext
    cases hsame.2
  · exact (hkeys _ _ _ _ _ _ Hourly.read_seconds Hourly.read_minutes .empty .empty .empty .empty).2 rfl

end Duration
end SeriesCache
