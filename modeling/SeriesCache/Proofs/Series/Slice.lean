import SeriesCache.Proofs.Dict
import SeriesCache.Proofs.Lists
import SeriesCache.Series.Fragment
/-!
# Slices

A slice of a slice is a slice (`Answer.slice_slice`), and slices over two windows that hold the same rows
are the same (`Answer.slice_congr`).  An answer is in order when each of its tables is told from the others
by its tags and has its rows in the order of time (`Answer.Orderly`).
-/
namespace SeriesCache

/-! ## Tables -/

namespace Table

/-- Every row has an instant, and none a later one than a row behind it. -/
structure Timely (t : Table) : Prop where
  instant : ∀ row ∈ t.rows, ∃ n, rowInstant? row = some n
  ascending : t.rows.Pairwise fun r s => ∀ m n, rowInstant? r = some m → rowInstant? s = some n → m ≤ n

theorem isWithin_iff {first last : Int64} {row : Row} :
    isWithin first last row = true ↔ ∃ n, rowInstant? row = some n ∧ first ≤ n ∧ n ≤ last := by
  rw [isWithin]
  cases rowInstant? row <;> simp

theorem isWithin_eq {row : Row} {n : Int64} (h : rowInstant? row = some n) (first last : Int64) :
    isWithin first last row = decide (first ≤ n ∧ n ≤ last) := by
  rw [isWithin, h, Bool.decide_and]

@[simp] theorem tagText_slice (first last : Int64) (t : Table) : (t.slice first last).tagText = t.tagText := rfl

theorem slice_slice {first last first' last' : Int64} (hfirst : first' ≤ first) (hlast : last ≤ last')
    (t : Table) : (t.slice first' last').slice first last = t.slice first last := by
  have hwithin (row : Row) (h : isWithin first last row = true) : isWithin first' last' row = true := by
    obtain ⟨n, hn, hle, hge⟩ := isWithin_iff.1 h
    exact isWithin_iff.2 ⟨n, hn, Int64.le_trans hfirst hle, Int64.le_trans hge hlast⟩
  have hrows : (t.rows.filter (isWithin first' last')).filter (isWithin first last) =
      t.rows.filter (isWithin first last) := by
    rw [List.filter_filter]
    refine List.filter_congr fun row _ => ?_
    cases h : isWithin first last row with
    | true => rw [hwithin row h, Bool.and_true]
    | false => rw [Bool.false_and]
  rw [slice, slice, hrows]
  rfl

theorem timely_of_instants {t : Table} (ns : List Int64) (h : t.rows.map rowInstant? = ns.map some)
    (hns : ns.Pairwise fun m n => m ≤ n) : t.Timely where
  instant row hrow := by
    have hmem : rowInstant? row ∈ ns.map some := h ▸ List.mem_map_of_mem hrow
    obtain ⟨n, -, hn⟩ := List.mem_map.1 hmem
    exact ⟨n, hn.symm⟩
  ascending := by
    have hpairwise : (ns.map some).Pairwise fun x y : Option Int64 => ∀ m n, x = some m → y = some n → m ≤ n :=
      List.pairwise_map.2 (hns.imp fun hle m n hm hn => by
        cases hm
        cases hn
        exact hle)
    rw [← h] at hpairwise
    exact List.pairwise_map.1 hpairwise

end Table

/-! ## Answers -/

namespace Answer

/-- The instants of the rows of an answer. -/
def Holds (a : Answer) (n : Int64) : Prop := ∃ t ∈ a.tables, ∃ row ∈ t.rows, Table.rowInstant? row = some n

/-- Tables that ascend by their tags and have one name and one list of columns, each with rows in the order of
time; and no more than one table, or tags on every one. -/
structure Aligned (a : Answer) : Prop where
  ascending : a.tables.Pairwise fun t u => t.tagText < u.tagText
  name : ∀ t ∈ a.tables, ∀ u ∈ a.tables, t.name = u.name
  columns : ∀ t ∈ a.tables, ∀ u ∈ a.tables, t.columns = u.columns
  tagged : a.tables.length ≤ 1 ∨ ∀ t ∈ a.tables, t.tags.isEmpty = false
  timely : ∀ t ∈ a.tables, t.Timely

/-- Tables in order, and no error beside them. -/
structure Orderly (a : Answer) : Prop extends aligned : Aligned a where
  error : a.error = none

@[simp] theorem error_slice (first last : Int64) (a : Answer) : (a.slice first last).error = a.error := rfl

theorem mem_slice {first last : Int64} {a : Answer} {u : Table} :
    u ∈ (a.slice first last).tables ↔ (∃ t ∈ a.tables, t.slice first last = u) ∧ u.rows.isEmpty = false := by
  rw [slice, List.mem_filter, List.mem_map, Bool.not_eq_true']

theorem Aligned.columns_slice {first last : Int64} {a : Answer} (h : a.Aligned) {t : Table}
    (ht : t ∈ (a.slice first last).tables) : t.columns = (a.slice first last).columns := by
  obtain ⟨front, rest, hfront⟩ := List.exists_cons_of_ne_nil (List.ne_nil_of_mem ht)
  have hmem : front ∈ (a.slice first last).tables := hfront ▸ List.mem_cons_self
  obtain ⟨⟨u, hu, rfl⟩, -⟩ := mem_slice.1 ht
  obtain ⟨⟨v, hv, rfl⟩, -⟩ := mem_slice.1 hmem
  rw [Answer.columns, hfront]
  exact h.columns u hu v hv

/-- An answer whose tables all have rows is empty only when it has no table. -/
theorem isEmpty_slice_iff {first last : Int64} {a : Answer} :
    (a.slice first last).isEmpty = true ↔ (a.slice first last).tables = [] := by
  rw [isEmpty]
  cases h : (a.slice first last).tables with
  | nil => simp
  | cons t ts =>
    have ht : t ∈ (a.slice first last).tables := by rw [h]; exact List.mem_cons_self
    simp [(mem_slice.1 ht).2]

/-- **A slice of a wider slice is a slice.** -/
theorem slice_slice {first last first' last' : Int64} (hfirst : first' ≤ first) (hlast : last ≤ last')
    (a : Answer) : (a.slice first' last').slice first last = a.slice first last := by
  have hfilter : ∀ ts : List Table,
      (((ts.map (Table.slice first' last')).filter fun t => !t.rows.isEmpty).map
        (Table.slice first last)).filter (fun t => !t.rows.isEmpty) =
      (ts.map (Table.slice first last)).filter fun t => !t.rows.isEmpty := by
    intro ts
    induction ts with
    | nil => rfl
    | cons t ts ih =>
      rw [List.map_cons, List.map_cons, List.filter_cons, List.filter_cons]
      have hslice := Table.slice_slice hfirst hlast t
      cases hempty : (t.slice first' last').rows.isEmpty with
      | true =>
        have hrows : (t.slice first last).rows = [] := by
          rw [← hslice, Table.slice, List.isEmpty_iff.1 hempty]
          rfl
        simp [hrows, ih]
      | false =>
        simp only [Bool.not_false, if_true]
        rw [List.map_cons, List.filter_cons, hslice, ih]
  rw [slice, slice, hfilter a.tables]
  rfl

/-- An answer whose rows are all in the window, and whose tables all have some, is its own slice. -/
theorem slice_eq_self {first last : Int64} {a : Answer}
    (h : ∀ t ∈ a.tables, t.rows ≠ [] ∧ ∀ row ∈ t.rows, Table.isWithin first last row = true) :
    a.slice first last = a := by
  have htable : ∀ t ∈ a.tables, t.slice first last = t := fun t ht => by
    rw [Table.slice, List.filter_eq_self.2 (h t ht).2]
  have hmap : a.tables.map (Table.slice first last) = a.tables :=
    (List.map_congr_left htable).trans (List.map_id' _)
  rw [slice, hmap, List.filter_eq_self.2 fun t ht => by simpa using (h t ht).1]

/-- **Windows with the same instants of an answer have the same slice.** -/
theorem slice_congr {first last first' last' : Int64} {a : Answer}
    (h : ∀ n, a.Holds n → (first ≤ n ∧ n ≤ last ↔ first' ≤ n ∧ n ≤ last')) :
    a.slice first last = a.slice first' last' := by
  have htable : ∀ t ∈ a.tables, t.slice first last = t.slice first' last' := by
    intro t ht
    rw [Table.slice, Table.slice]
    congr 1
    refine List.filter_congr fun row hrow => ?_
    rw [Table.isWithin, Table.isWithin]
    cases hn : Table.rowInstant? row with
    | none => rfl
    | some n =>
      have := h n ⟨t, ht, row, hrow, hn⟩
      simpa only [← Bool.decide_and, decide_eq_decide] using this
  rw [slice, slice, List.map_congr_left htable]

theorem Holds.slice {a : Answer} {n first last : Int64} (h : a.Holds n) (hfirst : first ≤ n)
    (hlast : n ≤ last) : (a.slice first last).tables ≠ [] := by
  obtain ⟨t, ht, row, hrow, hn⟩ := h
  have hmem : row ∈ (t.slice first last).rows :=
    List.mem_filter.2 ⟨hrow, Table.isWithin_iff.2 ⟨n, hn, hfirst, hlast⟩⟩
  refine List.ne_nil_of_mem (mem_slice.2 ⟨⟨t, ht, rfl⟩, ?_⟩)
  cases hrows : (t.slice first last).rows with
  | nil => rw [hrows] at hmem; cases hmem
  | cons => rfl

theorem tables_slice_eq_nil {a : Answer} {first last : Int64} (h : ∀ n, a.Holds n → ¬ (first ≤ n ∧ n ≤ last)) :
    (a.slice first last).tables = [] := by
  refine List.eq_nil_iff_forall_not_mem.2 fun u hu => ?_
  obtain ⟨⟨t, ht, rfl⟩, hrows⟩ := mem_slice.1 hu
  cases hu : (t.slice first last).rows with
  | nil =>
    rw [hu] at hrows
    cases hrows
  | cons row rows =>
    have hrow : row ∈ (t.slice first last).rows := by rw [hu]; exact List.mem_cons_self
    obtain ⟨hrow, hwithin⟩ := List.mem_filter.1 hrow
    obtain ⟨n, hn, hle, hge⟩ := Table.isWithin_iff.1 hwithin
    exact h n ⟨t, ht, row, hrow, hn⟩ ⟨hle, hge⟩

theorem slice_eq_empty {a : Answer} {first last : Int64} (herror : a.error = none)
    (h : ∀ n, a.Holds n → ¬ (first ≤ n ∧ n ≤ last)) : a.slice first last = .empty := by
  have hslice : a.slice first last = ⟨(a.slice first last).tables, a.error⟩ := rfl
  rw [hslice, tables_slice_eq_nil h, herror, empty]

end Answer
end SeriesCache
