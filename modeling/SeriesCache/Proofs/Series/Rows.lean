import SeriesCache.Proofs.Series.Alignment
import SeriesCache.Proofs.Series.Fragments
/-!
# Rows are conserved

Joining neither loses a row nor invents one, and leaves the rows of each table in the order of time
(`Fragment.rows_conserved`).  One step keeps the fragment that is joined in its window, its tables told apart by their
tags and their rows in order (`Fragment.Timed.join?`), however the windows of the fragments lie to each other: of two
that overlap in more than an instant neither follows the other, and they are not joined.
-/
namespace SeriesCache

/-! ## Rows of tables -/

/-- The instants of the rows stand in order. -/
def Table.Ascends (t : Table) : Prop := (t.rows.filterMap rowInstant?).Pairwise fun m n => m ≤ n

instance (t : Table) : Decidable t.Ascends :=
  inferInstanceAs (Decidable ((t.rows.filterMap Table.rowInstant?).Pairwise fun m n => m ≤ n))

/-- Rows up to an instant, and then rows from it on. -/
theorem Table.Ascends.append {t u : Table} (ht : t.Ascends) (hu : u.Ascends)
    (h : ∀ r ∈ t.rows, ∀ s ∈ u.rows, ∀ m n, rowInstant? r = some m → rowInstant? s = some n → m ≤ n) :
    (t.append u).Ascends := by
  unfold Ascends Table.append
  rw [List.filterMap_append]
  refine List.pairwise_append.2 ⟨ht, hu, fun m hm n hn => ?_⟩
  obtain ⟨r, hr, hm⟩ := List.mem_filterMap.1 hm
  obtain ⟨s, hs, hn⟩ := List.mem_filterMap.1 hn
  exact h r hr s hs m n hm hn

namespace Answer

/-- The rows of all tables. -/
def rows (a : Answer) : List Row := a.tables.flatMap Table.rows

theorem holds_iff {a : Answer} {n : Int64} : a.Holds n ↔ ∃ row ∈ a.rows, Table.rowInstant? row = some n := by
  unfold Holds rows
  simp only [List.mem_flatMap]
  constructor
  · rintro ⟨t, ht, row, hrow, hn⟩
    exact ⟨row, ⟨t, ht, hrow⟩, hn⟩
  · rintro ⟨row, ⟨t, ht, hrow⟩, hn⟩
    exact ⟨t, ht, row, hrow, hn⟩

/-! ## Rows of joined tables -/

/-- A table that is added brings its rows, and none is lost for them. -/
theorem rows_addTable (d : Dict Table) (t : Table) :
    ((addTable d t).values.flatMap Table.rows).Perm (d.values.flatMap Table.rows ++ t.rows) := by
  have hput (u : Table) : ((d.insert t.tagText u).values.flatMap Table.rows).Perm
      (u.rows ++ (d.erase t.tagText).values.flatMap Table.rows) :=
    (d.perm_values_insert t.tagText u).flatMap_right Table.rows
  unfold addTable Dict.alter
  cases hget : d.get? t.tagText with
  | none =>
    have hrows := hput t
    rw [Dict.erase_eq_self hget] at hrows
    exact hrows.trans List.perm_append_comm
  | some u =>
    have hbefore := hput u
    rw [Dict.insert_eq_self hget] at hbefore
    calc ((d.insert t.tagText (u.append t)).values.flatMap Table.rows).Perm
          ((u.rows ++ t.rows) ++ (d.erase t.tagText).values.flatMap Table.rows) := hput (u.append t)
      List.Perm _ ((u.rows ++ (d.erase t.tagText).values.flatMap Table.rows) ++ t.rows) := by
        rw [List.append_assoc, List.append_assoc]
        exact List.perm_append_comm.append_left u.rows
      List.Perm _ (d.values.flatMap Table.rows ++ t.rows) := hbefore.symm.append_right t.rows

theorem rows_foldl_addTable : ∀ (later : List Table) (d : Dict Table),
    ((later.foldl addTable d).values.flatMap Table.rows).Perm (d.values.flatMap Table.rows ++ later.flatMap Table.rows)
  | [], d => by rw [List.foldl_nil, List.flatMap_nil, List.append_nil]
  | t :: later, d => by
    rw [List.foldl_cons, List.flatMap_cons, ← List.append_assoc]
    exact (rows_foldl_addTable later (addTable d t)).trans ((rows_addTable d t).append_right _)

/-- **Tables with different texts of their tags** are all there by their tags. -/
theorem perm_values_byTags {tables : List Table} (h : tables.Pairwise fun t u => t.tagText ≠ u.tagText) :
    (byTags tables).values.Perm tables := by
  have hkeyed := Keyed.byTags tables
  have hnodup : (byTags tables).values.Nodup :=
    hkeyed.ascending.imp fun hlt heq => Text.ne_of_lt hlt (congrArg Table.tagText heq)
  have hnodup' : tables.Nodup := h.imp fun hne heq => hne (congrArg Table.tagText heq)
  refine (List.perm_ext_iff_of_nodup hnodup hnodup').2 fun t => ?_
  rw [hkeyed.mem_values, get?_byTags_eq_some_iff h]
  exact and_iff_left rfl

variable {earlier later : List Table}

/-- **The tables of two answers are joined row by row**, as long as those of the earlier one have different texts of
their tags. -/
theorem rows_joinTables (he : earlier.Pairwise fun t u => t.tagText ≠ u.tagText) (later : List Table) :
    ((joinTables earlier later).flatMap Table.rows).Perm (earlier.flatMap Table.rows ++ later.flatMap Table.rows) := by
  rcases joinTables_cases earlier later with ⟨e, l, rfl, rfl, -, heq⟩ | heq
  · rw [heq]
    simp [Table.append]
  · rw [heq]
    exact (rows_foldl_addTable later _).trans (((perm_values_byTags he).flatMap_right Table.rows).append_right _)

theorem pairwise_joinTables (earlier later : List Table) :
    (joinTables earlier later).Pairwise fun t u => t.tagText ≠ u.tagText := by
  rcases joinTables_cases earlier later with ⟨e, l, -, -, -, heq⟩ | heq
  · rw [heq]
    exact List.pairwise_singleton _ _
  · rw [heq]
    exact (keyed_aligned earlier later).ascending.imp Text.ne_of_lt

theorem exists_of_mem_joinTables (he : earlier.Pairwise fun t u => t.tagText ≠ u.tagText)
    (hl : later.Pairwise fun t u => t.tagText ≠ u.tagText) {t : Table} (ht : t ∈ joinTables earlier later) :
    t ∈ earlier ∨ t ∈ later ∨ ∃ e ∈ earlier, ∃ l ∈ later, t = e.append l := by
  rcases joinTables_cases earlier later with ⟨e, l, rfl, rfl, -, heq⟩ | heq
  · rw [heq] at ht
    exact .inr (.inr ⟨e, List.mem_cons_self, l, List.mem_cons_self, List.mem_singleton.1 ht⟩)
  · rw [heq] at ht
    exact exists_of_mem_aligned he hl ht

end Answer

/-! ## Joined fragments -/

namespace Fragment

variable {tolerance : Tolerance}

/-- A window that holds all rows, and tables told apart by the texts of their tags, each with rows in the order of
time. -/
structure Timed (f : Fragment) : Prop where
  window : f.first ≤ f.last
  inside : ∀ n, f.answer.Holds n → f.first ≤ n ∧ n ≤ f.last
  distinct : f.answer.tables.Pairwise fun t u => t.tagText ≠ u.tagText
  ascends : ∀ t ∈ f.answer.tables, t.Ascends

theorem inside_of_isWithin {f : Fragment} (h : ∀ row ∈ f.answer.rows, Table.isWithin f.first f.last row = true) :
    ∀ n, f.answer.Holds n → f.first ≤ n ∧ n ≤ f.last := by
  intro n hn
  obtain ⟨row, hrow, hinstant⟩ := Answer.holds_iff.1 hn
  obtain ⟨m, hm, hwithin⟩ := Table.isWithin_iff.1 (h row hrow)
  rw [hinstant] at hm
  cases hm
  exact hwithin

theorem le_later (a b : Int64) : a ≤ later a b ∧ b ≤ later a b := by
  unfold later
  split
  · rename_i h
    exact ⟨Int64.le_of_lt h, Int64.le_refl b⟩
  · rename_i h
    exact ⟨Int64.le_refl a, Int64.not_lt.1 h⟩

/-- **Joining two fragments** conserves their rows, and leaves them in the window and in order: the one follows the
other, and so no row of the one has a later instant than a row of the other. -/
theorem Timed.join? {f g h : Fragment} (hf : f.Timed) (hg : g.Timed) (hjoin : Fragment.join? tolerance f g = some h) :
    h.Timed ∧ h.answer.rows.Perm (f.answer.rows ++ g.answer.rows) := by
  obtain ⟨e, l, hcases, hadmits, a, ha, rfl⟩ := exists_of_join? hjoin
  have hboth : e.Timed ∧ l.Timed ∧ (e.answer.rows ++ l.answer.rows).Perm (f.answer.rows ++ g.answer.rows) := by
    rcases hcases with ⟨rfl, rfl⟩ | ⟨rfl, rfl⟩
    · exact ⟨hf, hg, .refl _⟩
    · exact ⟨hg, hf, List.perm_append_comm⟩
  obtain ⟨he, hl, hswap⟩ := hboth
  have hfollows : e.last ≤ l.first := (admits_iff.1 hadmits).1
  obtain ⟨hlast, hlast'⟩ := le_later e.last l.last
  have hjoined := Answer.eq_of_join ha
  have hrows : a.rows.Perm (e.answer.rows ++ l.answer.rows) := by
    rw [hjoined]
    exact Answer.rows_joinTables he.distinct l.answer.tables
  refine ⟨⟨Int64.le_trans he.window hlast, fun n hn => ?_, ?_, fun t ht => ?_⟩, hrows.trans hswap⟩
  · obtain ⟨row, hrow, hinstant⟩ := Answer.holds_iff.1 hn
    rcases List.mem_append.1 (hrows.mem_iff.1 hrow) with hrow | hrow
    · obtain ⟨hle, hge⟩ := he.inside n (Answer.holds_iff.2 ⟨row, hrow, hinstant⟩)
      exact ⟨hle, Int64.le_trans hge hlast⟩
    · obtain ⟨hle, hge⟩ := hl.inside n (Answer.holds_iff.2 ⟨row, hrow, hinstant⟩)
      exact ⟨Int64.le_trans he.window (Int64.le_trans hfollows hle), Int64.le_trans hge hlast'⟩
  · rw [hjoined]
    exact Answer.pairwise_joinTables _ _
  · rw [hjoined] at ht
    obtain ht | ht | ⟨u, hu, v, hv, rfl⟩ := Answer.exists_of_mem_joinTables he.distinct hl.distinct ht
    · exact he.ascends t ht
    · exact hl.ascends t ht
    · refine (he.ascends u hu).append (hl.ascends v hv) fun r hr s hs m n hm hn => ?_
      have hbefore := (he.inside m ⟨u, hu, r, hr, hm⟩).2
      have hbehind := (hl.inside n ⟨v, hv, s, hs, hn⟩).1
      exact Int64.le_trans hbefore (Int64.le_trans hfollows hbehind)

/-- Fragments joined from the first one on have all rows, of those joined and of those that stand alone. -/
theorem rows_joinFrom : ∀ {fs : List Fragment} {f : Fragment}, f.Timed → (∀ g ∈ fs, g.Timed) →
    ((joinFrom tolerance f fs).flatMap Answer.rows).Perm ((f :: fs).flatMap fun g => g.answer.rows)
  | [], f, _, _ => .refl _
  | g :: gs, f, hf, hgs => by
    obtain ⟨hg, hgs⟩ := List.forall_mem_cons.1 hgs
    unfold joinFrom
    split
    · rename_i h hjoin
      obtain ⟨hh, hrows⟩ := hf.join? hg hjoin
      have hrest := rows_joinFrom hh hgs
      rw [List.flatMap_cons] at hrest
      rw [List.flatMap_cons, List.flatMap_cons, ← List.append_assoc]
      exact hrest.trans (hrows.append_right _)
    · rw [List.flatMap_cons, List.flatMap_cons]
      exact (rows_joinFrom hg hgs).append_left f.answer.rows

/-- **Joining conserves rows and keeps them in order.**  Let fragments hold their rows in their windows, in tables
that are told apart by the texts of their tags and have their rows in the order of time, none of them empty.  Then,
with any tolerance, the rows of all tables of the answers that they come to are exactly the rows of all their tables,
each as often as before, and every table of an answer has its rows in the order of time. -/
theorem rows_conserved (tolerance : Tolerance) {fragments : List Fragment} (htimed : ∀ f ∈ fragments, f.Timed)
    (hrows : ∀ f ∈ fragments, f.answer.isEmpty = false) :
    ((joinAll tolerance fragments).flatMap Answer.rows).Perm (fragments.flatMap fun f => f.answer.rows) ∧
    ∀ a ∈ joinAll tolerance fragments, ∀ t ∈ a.tables, t.Ascends := by
  constructor
  · have hall : fragments.filter (fun f => !f.answer.isEmpty) = fragments :=
      List.filter_eq_self.2 fun f hf => by rw [hrows f hf]; rfl
    have hperm := List.mergeSort_perm fragments isBefore
    have hsorted : ∀ f ∈ fragments.mergeSort isBefore, f.Timed := fun f hf => htimed f (hperm.mem_iff.1 hf)
    refine .trans ?_ (hperm.flatMap_right fun f => f.answer.rows)
    unfold joinAll
    rw [hall]
    split
    · rename_i heq
      rw [heq]
      exact .refl _
    · rename_i f fs heq
      rw [heq] at hsorted ⊢
      obtain ⟨hf, hfs⟩ := List.forall_mem_cons.1 hsorted
      exact rows_joinFrom hf hfs
  · intro a ha
    obtain ⟨f, hf, rfl⟩ := forall_joinAll (fun _ _ _ hf hg hjoin => (hf.join? hg hjoin).1) htimed a ha
    exact hf.ascends

/-- Windows that share an instant, one inside another, and one where another measurement starts and goes on without
tags. -/
theorem rows_conserved_windows :
    let table (name : Text) (tags : List (Text × Text)) (instants : List Int64) : Table :=
      ⟨name, .ofList tags, ["time".toList], instants.map fun n => [.int64 n]⟩
    let host (name : Text) : List (Text × Text) := [("host".toList, name)]
    let fragments : List Fragment := [
      ⟨18, 30, ⟨[table "k".toList (host "a".toList) [18, 30]], none⟩⟩,
      ⟨10, 20, ⟨[table "m".toList (host "a".toList) [10, 10, 15], table "m".toList (host "c".toList) []], none⟩⟩,
      ⟨0, 10, ⟨[table "m".toList (host "a".toList) [1, 10], table "m".toList (host "b".toList) [10]], none⟩⟩,
      ⟨12, 18, ⟨[table "m".toList (host "a".toList) [13]], none⟩⟩,
      ⟨33, 33, ⟨[table "k".toList [] [33, 33]], none⟩⟩]
    ((joinAll ⟨5⟩ fragments).flatMap Answer.rows).Perm (fragments.flatMap fun f => f.answer.rows) ∧
    ∀ a ∈ joinAll ⟨5⟩ fragments, ∀ t ∈ a.tables, t.Ascends := by
  intro table host fragments
  refine rows_conserved ⟨5⟩ (fun f hf => ⟨?_, inside_of_isWithin ?_, ?_, ?_⟩) (by decide)
  all_goals
    revert f hf
    decide

end Fragment
end SeriesCache
