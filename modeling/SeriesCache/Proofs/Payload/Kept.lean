import SeriesCache.Proofs.Payload.RoundTrip
import SeriesCache.Proofs.Series.Rows
/-!
# Answers that are kept

Whether an answer is empty is read off its first table, and which table is first depends on the tags alone
(`Answer.startsWithRows_iff`).  An answer with rows is kept by joining, and all its rows by writing and reading it,
exactly when its first table has some (`Answer.kept_iff_startsWithRows`); where other tables alone have rows, these are
lost without a fault.
-/
namespace SeriesCache

namespace Answer

/-- The first table has a row. -/
def StartsWithRows (a : Answer) : Prop := ∃ t, a.tables.head? = some t ∧ t.rows ≠ []

theorem isEmpty_eq_false_iff {a : Answer} : a.isEmpty = false ↔ a.StartsWithRows := by
  obtain ⟨tables, error⟩ := a
  unfold isEmpty StartsWithRows
  cases tables with
  | nil => simp
  | cons t tables => simp

theorem isEmpty_eq_true_iff {a : Answer} : a.isEmpty = true ↔ ¬ a.StartsWithRows := by
  rw [← isEmpty_eq_false_iff, Bool.not_eq_false]

/-- **The table whose tags come first decides**, whatever rows the others have. -/
theorem startsWithRows_iff {a : Answer} (h : a.tables.Pairwise fun t u => t.tagText < u.tagText) :
    a.StartsWithRows ↔ ∃ t ∈ a.tables, t.rows ≠ [] ∧ ∀ u ∈ a.tables, ¬ u.tagText < t.tagText := by
  unfold StartsWithRows
  cases htables : a.tables with
  | nil => simp
  | cons t ts =>
    rw [htables] at h
    have hfirst := (List.pairwise_cons.1 h).1
    constructor
    · rintro ⟨_, hhead, hrows⟩
      cases hhead
      refine ⟨t, List.mem_cons_self, hrows, fun u hu hlt => ?_⟩
      rcases List.mem_cons.1 hu with rfl | hu
      · exact List.lt_irrefl _ hlt
      · exact List.lt_irrefl _ (List.lt_trans hlt (hfirst u hu))
    · rintro ⟨u, hu, hrows, hleast⟩
      rcases List.mem_cons.1 hu with rfl | hu
      · exact ⟨u, rfl, hrows⟩
      · exact absurd (hfirst u hu) (hleast t List.mem_cons_self)

/-- However its tables are put in order, an answer has their rows. -/
theorem length_rows_ofTables (tables : List Table) :
    (ofTables tables).rows.length = (tables.flatMap Table.rows).length :=
  ((Text.perm_sortOn Table.tagText tables).flatMap_right Table.rows).length_eq

end Answer

/-- A fragment alone is joined with nothing, but for an empty one, which is left out. -/
theorem Fragment.joinAll_singleton (tolerance : Tolerance) (f : Fragment) :
    joinAll tolerance [f] = if f.answer.isEmpty then [] else [f.answer] := by
  cases hempty : f.answer.isEmpty with
  | true => simp [joinAll, hempty]
  | false => exact joinAll_of_filter (by simp [hempty])

namespace Payload

variable {layout : TextLayout}

/-- Tables are stored with as many rows as they have. -/
theorem length_rows_storedTable : ∀ {keys : List Key} {tables : List Table}, keys.length = tables.length →
    ((List.zipWith (storedTable layout) keys tables).flatMap Table.rows).length = (tables.flatMap Table.rows).length
  | [], [], _ => rfl
  | key :: keys, t :: tables, h => by
    have hrows : (storedTable layout key t).rows.length = t.rows.length := List.length_map _
    rw [List.zipWith_cons_cons, List.flatMap_cons, List.flatMap_cons, List.length_append, List.length_append, hrows,
      length_rows_storedTable (Nat.succ.inj h)]

/-- **As many rows are read as were written** for an answer that is not empty. -/
theorem length_rows_of_decode {a : Answer} {keys : List Key} {payload : Bytes} (hanswer : a.isEmpty = false)
    (h : encode layout a keys = .ok payload) :
    ∃ b, decode layout payload = .ok b ∧ b.rows.length = a.rows.length := by
  obtain ⟨hlen, hread⟩ := answer_reads_back hanswer h
  refine ⟨_, hread, ?_⟩
  rw [Answer.length_rows_ofTables, length_rows_storedTable hlen]
  rfl

end Payload

namespace Answer

open Payload (encode decode)

/-- **An answer with rows is kept exactly when its first table has some**: as the only fragment to be joined, whatever its
window, and with as many rows in every payload that it is written as. -/
theorem kept_iff_startsWithRows {a : Answer} (hrows : ∃ t ∈ a.tables, t.rows ≠ []) :
    (∀ first last tolerance, Fragment.joinAll tolerance [⟨first, last, a⟩] = [a] ↔ a.StartsWithRows) ∧
    ∀ layout keys payload, encode layout a keys = .ok payload →
      ∃ b, decode layout payload = .ok b ∧ (b.rows.length = a.rows.length ↔ a.StartsWithRows) := by
  cases hempty : a.isEmpty with
  | false =>
    have hstarts := isEmpty_eq_false_iff.1 hempty
    refine ⟨fun first last tolerance => ?_, fun layout keys payload h => ?_⟩
    · rw [Fragment.joinAll_singleton, hempty]
      exact iff_of_true rfl hstarts
    · obtain ⟨b, hread, hlength⟩ := Payload.length_rows_of_decode hempty h
      exact ⟨b, hread, iff_of_true hlength hstarts⟩
  | true =>
    have hstarts := isEmpty_eq_true_iff.1 hempty
    refine ⟨fun first last tolerance => ?_, fun layout keys payload h => ?_⟩
    · rw [Fragment.joinAll_singleton, hempty]
      exact iff_of_false (List.cons_ne_nil _ _).symm hstarts
    · rw [Payload.encode_of_isEmpty hempty] at h
      cases h
      refine ⟨.empty, rfl, iff_of_false (fun hlength => ?_) hstarts⟩
      obtain ⟨t, ht, hne⟩ := hrows
      have hnil : a.rows = [] := List.eq_nil_of_length_eq_zero hlength.symm
      exact hne (List.flatMap_eq_nil_iff.1 hnil t ht)

/-- The rows of two hosts. -/
def ofHosts (former latter : List Row) : Answer :=
  let table (host : String) (rows : List Row) : Table :=
    ⟨"m".toList, .ofList [("host".toList, host.toList)], ["time".toList, "v".toList], rows⟩
  ⟨[table "a" former, table "b" latter], none⟩

theorem kept_iff_startsWithRows_former :
    let a := ofHosts [[.int64 5, .int64 1]] []
    let key (host : String) : Key :=
      ⟨[⟨"m".toList, [⟨"host".toList, .eq, host.toList⟩]⟩], [⟨"v".toList, .float64⟩], [], none, none⟩
    Fragment.joinAll ⟨0⟩ [⟨7, 3, a⟩] = [a] ∧ ∃ payload b, encode .fixed a [key "a", key "b"] = .ok payload ∧
      decode .fixed payload = .ok b ∧ b.rows.length = 1 := by
  intro a key
  have hstarts : a.StartsWithRows := isEmpty_eq_false_iff.1 rfl
  obtain ⟨hjoined, hread⟩ := @kept_iff_startsWithRows a (by decide)
  refine ⟨(hjoined 7 3 ⟨0⟩).2 hstarts, ?_⟩
  have hwritten : (encode .fixed a [key "a", key "b"]).isOk = true := by decide
  cases h : encode .fixed a [key "a", key "b"] with
  | error e =>
    rw [h] at hwritten
    cases hwritten
  | ok payload =>
    obtain ⟨b, hb, hlength⟩ := hread .fixed _ payload h
    exact ⟨payload, b, rfl, hb, hlength.2 hstarts⟩

/-- **Rows of the latter host alone are lost**, though its tables are in order, with different tags and under one head. -/
theorem not_kept :
    let a := ofHosts [] [[.int64 5, .int64 1]]
    (a.tables.Pairwise fun t u => t.tagText < u.tagText) ∧ (∀ t ∈ a.tables, t.name = "m".toList) ∧
    (∀ t ∈ a.tables, t.columns = ["time".toList, "v".toList]) ∧ (∃ t ∈ a.tables, t.rows ≠ []) ∧
    Fragment.joinAll ⟨0⟩ [⟨0, 10, a⟩] = [] ∧
    ∀ layout keys, ∃ payload b, encode layout a keys = .ok payload ∧ decode layout payload = .ok b ∧
      b.rows.length ≠ a.rows.length := by
  intro a
  refine ⟨by decide, by decide, by decide, by decide, ?_, fun layout keys => ?_⟩
  · exact Fragment.joinAll_singleton _ _
  · exact ⟨_, .empty, Payload.encode_of_isEmpty rfl keys, rfl, by decide⟩

end Answer
end SeriesCache
