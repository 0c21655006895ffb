import SeriesCache.Proofs.Series.Slice
import SeriesCache.Proofs.Text.Sorting
/-!
# Joined slices

Answers are joined table by table: what the tables of two answers come to is known by their tags
(`get?_foldl_addTable`).  So two slices of one answer in order are the slice over the window from the first
to the last of their instants, when no row stands between them (`Answer.join_slice`).
-/
namespace SeriesCache

namespace Answer

/-! ## Tables by their tags -/

/-- What two answers have under the same tags: the rows of the earlier one, then those of the later one. -/
def tableOfBoth : Option Table → Option Table → Option Table
  | some t, some u => some (t.append u)
  | some t, none => some t
  | none, u => u

theorem get?_byTags_eq_some_iff {tables : List Table}
    (h : tables.Pairwise fun t u => t.tagText ≠ u.tagText) {k : Text} {t : Table} :
    (byTags tables).get? k = some t ↔ t ∈ tables ∧ t.tagText = k := by
  constructor
  · intro hget
    obtain ⟨u, hu, heq⟩ := List.mem_map.1 (Dict.mem_of_get?_ofList hget)
    cases heq
    exact ⟨hu, rfl⟩
  · rintro ⟨ht, rfl⟩
    refine Dict.get?_ofList_of_mem (List.mem_map_of_mem ht) fun u hu => ?_
    obtain ⟨v, hv, heq⟩ := List.mem_map.1 hu
    obtain ⟨htag, rfl⟩ := Prod.mk.inj heq
    exact Text.eq_of_key_eq h hv ht htag

/-- Tables that ascend by their tags are their own dictionary. -/
theorem values_byTags {tables : List Table} (h : tables.Pairwise fun t u => t.tagText < u.tagText) :
    (byTags tables).values = tables := by
  have hmap : (tables.map fun t => (t.tagText, t)).Pairwise fun a b => a.1 < b.1 :=
    List.pairwise_map.2 h
  rw [Dict.values, byTags, Dict.entries_ofList hmap, List.map_map]
  exact List.map_id tables

theorem get?_addTable (d : Dict Table) (t : Table) (k : Text) :
    (addTable d t).get? k = if t.tagText = k then tableOfBoth (d.get? k) (some t) else d.get? k := by
  rw [addTable, Dict.alter, Dict.get?_insert]
  split
  · rename_i hk
    rw [hk]
    cases d.get? k <;> rfl
  · rfl

/-- **What tables added one after another come to**, by tags. -/
theorem get?_foldl_addTable : ∀ {later : List Table} (d : Dict Table) (k : Text),
    (later.Pairwise fun t u => t.tagText ≠ u.tagText) →
    (later.foldl addTable d).get? k = tableOfBoth (d.get? k) ((byTags later).get? k)
  | [], d, k, _ => by
    rw [List.foldl_nil]
    cases d.get? k <;> rfl
  | t :: later, d, k, h => by
    obtain ⟨ht, hlater⟩ := List.pairwise_cons.1 h
    rw [List.foldl_cons, get?_foldl_addTable (addTable d t) k hlater, get?_addTable]
    by_cases hk : t.tagText = k
    · have hnone : (byTags later).get? k = none := by
        refine Dict.get?_ofList_eq_none_iff.2 fun e he heq => ?_
        obtain ⟨u, hu, rfl⟩ := List.mem_map.1 he
        exact ht u hu (hk.trans heq.symm)
      have hsome : (byTags (t :: later)).get? k = some t :=
        (get?_byTags_eq_some_iff h).2 ⟨List.mem_cons_self, hk⟩
      rw [if_pos hk, hnone, hsome]
      cases d.get? k <;> rfl
    · have hsame : (byTags (t :: later)).get? k = (byTags later).get? k := by
        rw [byTags, List.map_cons, Dict.get?_ofList_cons, if_neg hk, byTags]
        cases (Dict.ofList (later.map fun t => (t.tagText, t))).get? k <;> rfl
      rw [if_neg hk, hsame]

theorem values_addTable_singleton {t u : Table} (h : u.tagText = t.tagText) :
    (addTable (byTags [t]) u).values = [t.append u] := by
  have hget : (byTags [t]).get? u.tagText = some t :=
    (get?_byTags_eq_some_iff (List.pairwise_singleton _ _)).2 ⟨List.mem_singleton_self t, h.symm⟩
  have hentries : (byTags [t]).entries = [(t.tagText, t)] := Dict.entries_ofList (List.pairwise_singleton _ _)
  have hput : (addTable (byTags [t]) u).entries = [(u.tagText, t.append u)] := by
    rw [addTable, Dict.alter, hget, Dict.entries_insert, hentries, Dict.put, h,
      if_neg (List.lt_irrefl _), if_pos rfl]
  rw [Dict.values, hput]
  rfl

/-! ## Slices by their tags -/

theorem ascending_slice {a : Answer} (h : a.tables.Pairwise fun t u => t.tagText < u.tagText)
    (first last : Int64) : (a.slice first last).tables.Pairwise fun t u => t.tagText < u.tagText := by
  have hmap : (a.tables.map (Table.slice first last)).Pairwise fun t u => t.tagText < u.tagText :=
    List.pairwise_map.2 h
  exact hmap.filter _

theorem get?_byTags_slice {a : Answer} (h : a.tables.Pairwise fun t u => t.tagText < u.tagText)
    (first last : Int64) (k : Text) : (byTags (a.slice first last).tables).get? k =
      ((byTags a.tables).get? k).bind fun t =>
        if (t.slice first last).rows.isEmpty then none else some (t.slice first last) := by
  have hdiff := h.imp Text.ne_of_lt
  have hslice := (ascending_slice h first last).imp Text.ne_of_lt
  apply Option.ext
  intro u
  rw [get?_byTags_eq_some_iff hslice, mem_slice, Option.bind_eq_some_iff]
  constructor
  · rintro ⟨⟨⟨t, ht, rfl⟩, hrows⟩, rfl⟩
    refine ⟨t, (get?_byTags_eq_some_iff hdiff).2 ⟨ht, rfl⟩, ?_⟩
    rw [hrows]
    rfl
  · rintro ⟨t, ht, hu⟩
    obtain ⟨hmem, rfl⟩ := (get?_byTags_eq_some_iff hdiff).1 ht
    split at hu
    · cases hu
    · rename_i hrows
      cases hu
      exact ⟨⟨⟨t, hmem, rfl⟩, Bool.eq_false_iff.2 hrows⟩, rfl⟩

end Answer

/-- The rows of two windows, one after the other, are those of the window around them, when no row stands
between them. -/
theorem Table.append_slice {t : Table} (h : t.Timely) {first last first' last' : Int64} (hfirst : first ≤ first')
    (hlast : last ≤ last') (hbefore : last < first')
    (hgap : ∀ row ∈ t.rows, ∀ n, rowInstant? row = some n → n ≤ last ∨ first' ≤ n) :
    (t.slice first last).append (t.slice first' last') = t.slice first last' := by
  have hrows : t.rows.filter (isWithin first last) ++ t.rows.filter (isWithin first' last') =
      t.rows.filter (isWithin first last') := by
    refine filter_append_filter (fun row hrow => ?_) (fun row hrow => ?_) (h.ascending.imp ?_)
    · obtain ⟨n, hn⟩ := h.instant row hrow
      have hside := hgap row hrow n hn
      rw [isWithin_eq hn, isWithin_eq hn, isWithin_eq hn, ← Bool.decide_or, decide_eq_decide]
      simp only [Int64.le_iff_toInt_le, Int64.lt_iff_toInt_lt] at *
      omega
    · obtain ⟨n, hn⟩ := h.instant row hrow
      rw [isWithin_eq hn, isWithin_eq hn, decide_eq_true_eq, decide_eq_true_eq]
      simp only [Int64.le_iff_toInt_le, Int64.lt_iff_toInt_lt] at *
      omega
    · rintro r s hle ⟨hr, hs⟩
      obtain ⟨m, hm, hm'⟩ := isWithin_iff.1 hr
      obtain ⟨n, hn, hn'⟩ := isWithin_iff.1 hs
      have := hle m n hm hn
      simp only [Int64.le_iff_toInt_le, Int64.lt_iff_toInt_lt] at *
      omega
  rw [append, slice, slice, slice, hrows]

namespace Answer

variable {a : Answer} {first last first' last' : Int64}

/-- Of two tables that differ in their rows alone, those with rows come to the rows of both. -/
theorem tableOfBoth_of_rows {t u : Table} (h : { t with rows := u.rows } = u) :
    tableOfBoth (if t.rows.isEmpty then none else some t) (if u.rows.isEmpty then none else some u) =
      if (t.append u).rows.isEmpty then none else some (t.append u) := by
  rw [Table.append]
  cases ht : t.rows with
  | nil =>
    cases hu : u.rows with
    | nil => rfl
    | cons row rows =>
      rw [← hu, List.nil_append, h]
      simp [hu, tableOfBoth]
  | cons row rows =>
    cases hu : u.rows with
    | nil =>
      rw [List.append_nil, ← ht]
      have hrows : t.rows.isEmpty = false := by rw [ht]; rfl
      rw [hrows]
      rfl
    | cons => simp [tableOfBoth, Table.append, ht, hu]

theorem eq_of_length_le_one {tables : List Table} (h : tables.length ≤ 1) {t u : Table} (ht : t ∈ tables)
    (hu : u ∈ tables) : t = u := by
  match tables with
  | [] => cases ht
  | [v] => rw [List.mem_singleton.1 ht, List.mem_singleton.1 hu]
  | _ :: _ :: _ => exact absurd h (by simp)

theorem foldl_addTable_slice (h : a.Aligned) (hfirst : first ≤ first') (hlast : last ≤ last')
    (hbefore : last < first') (hgap : ∀ n, a.Holds n → n ≤ last ∨ first' ≤ n) :
    (a.slice first' last').tables.foldl addTable (byTags (a.slice first last).tables) =
      byTags (a.slice first last').tables := by
  apply Dict.ext_get?
  intro k
  rw [get?_foldl_addTable _ k ((ascending_slice h.ascending first' last').imp Text.ne_of_lt)]
  simp only [get?_byTags_slice h.ascending]
  cases hk : (byTags a.tables).get? k with
  | none => rw [Option.bind_none, Option.bind_none, Option.bind_none, tableOfBoth]
  | some t =>
    have ht := ((get?_byTags_eq_some_iff (h.ascending.imp Text.ne_of_lt)).1 hk).1
    have happend := Table.append_slice (h.timely t ht) hfirst hlast hbefore fun row hrow n hn =>
      hgap n ⟨t, ht, row, hrow, hn⟩
    rw [Option.bind_some, Option.bind_some, Option.bind_some, ← happend]
    exact tableOfBoth_of_rows rfl

/-- **The two ways to join tables**: two single ones of which one has no tags are one table, and all others are joined
by their tags. -/
theorem joinTables_cases (earlier later : List Table) :
    (∃ e l, earlier = [e] ∧ later = [l] ∧ (e.tags.isEmpty || l.tags.isEmpty) = true ∧
      joinTables earlier later = [e.append l]) ∨
    joinTables earlier later = (later.foldl addTable (byTags earlier)).values := by
  unfold joinTables
  split
  · rename_i e l
    split
    · rename_i htags
      exact .inl ⟨e, l, rfl, rfl, htags, rfl⟩
    · exact .inr rfl
  · exact .inr rfl

/-- Where two single tables have the same tags, it makes no difference. -/
theorem joinTables_eq {earlier later : List Table} (h : ∀ e l, earlier = [e] → later = [l] →
    (e.tags.isEmpty || l.tags.isEmpty) = true → l.tagText = e.tagText) :
    joinTables earlier later = (later.foldl addTable (byTags earlier)).values := by
  rcases joinTables_cases earlier later with ⟨e, l, rfl, rfl, htags, heq⟩ | heq
  · rw [heq, List.foldl_cons, List.foldl_nil, values_addTable_singleton (h e l rfl rfl htags)]
  · exact heq

/-- Two slices are joined by their tags, even where each is a single table. -/
theorem joinTables_slices (h : a.Aligned) (first last first' last' : Int64) :
    joinTables (a.slice first last).tables (a.slice first' last').tables =
      ((a.slice first' last').tables.foldl addTable (byTags (a.slice first last).tables)).values := by
  refine joinTables_eq fun e l he hl htags => ?_
  obtain ⟨t, ht, rfl⟩ := (mem_slice.1 (he ▸ List.mem_singleton_self e)).1
  obtain ⟨u, hu, rfl⟩ := (mem_slice.1 (hl ▸ List.mem_singleton_self l)).1
  have hsingle : a.tables.length ≤ 1 := h.tagged.resolve_right fun htagged => by
    have ht' : (t.slice first last).tags.isEmpty = false := htagged t ht
    have hu' : (u.slice first' last').tags.isEmpty = false := htagged u hu
    rw [ht', hu'] at htags
    cases htags
  rw [Table.tagText_slice, Table.tagText_slice, eq_of_length_le_one hsingle hu ht]

theorem eq_of_join {earlier later joined : Answer} (h : earlier.join later = .ok joined) :
    joined = ⟨joinTables earlier.tables later.tables, earlier.error <|> later.error⟩ := by
  unfold join at h
  split at h
  · split at h
    · cases h
    · split at h
      · cases h
      · cases h
        rfl
  · cases h
    rfl

/-- Answers of one measurement with the same columns can always be joined. -/
theorem join_eq {earlier later : Answer} (hname : ∀ t ∈ earlier.tables, ∀ u ∈ later.tables, t.name = u.name)
    (hcolumns : ∀ t ∈ earlier.tables, ∀ u ∈ later.tables, t.columns = u.columns) :
    earlier.join later = .ok ⟨joinTables earlier.tables later.tables, earlier.error <|> later.error⟩ := by
  rw [join.eq_def]
  split
  · rename_i e _ l _ he hl
    have hemem : e ∈ earlier.tables := he ▸ List.mem_cons_self
    have hlmem : l ∈ later.tables := hl ▸ List.mem_cons_self
    rw [if_neg (not_not_intro (hname e hemem l hlmem)), if_neg (not_not_intro (hcolumns e hemem l hlmem))]
  · rfl

/-- Two slices of one answer can always be joined. -/
theorem join_slices (h : a.Aligned) (first last first' last' : Int64) :
    (a.slice first last).join (a.slice first' last') =
      .ok ⟨joinTables (a.slice first last).tables (a.slice first' last').tables, a.error⟩ := by
  have herror : ((a.slice first last).error <|> (a.slice first' last').error) = a.error := by
    rw [error_slice, error_slice]
    cases a.error <;> rfl
  rw [join_eq, herror]
  all_goals
    intro v hv w hw
    obtain ⟨⟨t, ht, rfl⟩, -⟩ := mem_slice.1 hv
    obtain ⟨⟨u, hu, rfl⟩, -⟩ := mem_slice.1 hw
  · exact h.name t ht u hu
  · exact h.columns t ht u hu

/-- **Two slices join to the slice around them**, when no row of the answer stands between them. -/
theorem join_slice (h : a.Aligned) (hfirst : first ≤ first') (hlast : last ≤ last')
    (hbefore : last < first') (hgap : ∀ n, a.Holds n → n ≤ last ∨ first' ≤ n) :
    (a.slice first last).join (a.slice first' last') = .ok (a.slice first last') := by
  rw [join_slices h, joinTables_slices h, foldl_addTable_slice h hfirst hlast hbefore hgap,
    values_byTags (ascending_slice h.ascending first last')]
  rfl

/-! ## Slices with an instant in common -/

/-- A row that is in two windows stands twice in what their slices of a table come to. -/
theorem append_slice_ne {t : Table} {row : Row} (hrow : row ∈ t.rows) {n : Int64}
    (hn : Table.rowInstant? row = some n) (hfirst : first ≤ n) (hlast : n ≤ last) :
    ((t.slice first n).append (t.slice n last)).slice first last ≠ t.slice first last := by
  intro heq
  have hwithin {first last : Int64} (hfirst : first ≤ n) (hlast : n ≤ last) :
      Table.isWithin first last row = true := Table.isWithin_iff.2 ⟨n, hn, hfirst, hlast⟩
  have hcount := congrArg (fun u : Table => u.rows.count row) heq
  have hbefore := hwithin hfirst (Int64.le_refl n)
  have hbehind := hwithin (Int64.le_refl n) hlast
  have hpos : 0 < t.rows.count row := List.count_pos_iff.2 hrow
  simp only [Table.slice, Table.append, List.count_filter (hwithin hfirst hlast), List.count_append,
    List.count_filter hbefore, List.count_filter hbehind] at hcount
  omega

/-- **Slices that both hold an instant** with a row join to more than the slice around them: the row stands twice. -/
theorem join_shared (h : a.Aligned) {n : Int64} (hn : a.Holds n) (hfirst : first ≤ n) (hlast : n ≤ last) :
    ∃ b, (a.slice first n).join (a.slice n last) = .ok b ∧ b.slice first last ≠ a.slice first last := by
  refine ⟨_, join_slices h first n n last, fun heq => ?_⟩
  obtain ⟨t, ht, row, hrow, hinstant⟩ := hn
  have hdiff := h.ascending.imp Text.ne_of_lt
  have htags : (byTags a.tables).get? t.tagText = some t := (get?_byTags_eq_some_iff hdiff).2 ⟨ht, rfl⟩
  have hrows {first last : Int64} (hfirst : first ≤ n) (hlast : n ≤ last) :
      row ∈ (t.slice first last).rows :=
    List.mem_filter.2 ⟨hrow, Table.isWithin_iff.2 ⟨n, hinstant, hfirst, hlast⟩⟩
  have hbefore := hrows hfirst (Int64.le_refl n)
  have hbehind := hrows (Int64.le_refl n) hlast
  have hnot {u : Table} (hu : row ∈ u.rows) : u.rows.isEmpty = false :=
    List.isEmpty_eq_false_iff.2 (List.ne_nil_of_mem hu)
  -- Under its tags the table stands with the rows of both slices.
  have hget : ((a.slice n last).tables.foldl addTable (byTags (a.slice first n).tables)).get? t.tagText =
      some ((t.slice first n).append (t.slice n last)) := by
    rw [get?_foldl_addTable _ _ ((ascending_slice h.ascending n last).imp Text.ne_of_lt)]
    simp only [get?_byTags_slice h.ascending, htags, Option.bind_some, hnot hbefore, hnot hbehind]
    rfl
  have hmem : (t.slice first n).append (t.slice n last) ∈ joinTables (a.slice first n).tables (a.slice n last).tables := by
    rw [joinTables_slices h]
    exact List.mem_map.2 ⟨_, Dict.mem_entries_iff.2 hget, rfl⟩
  have hslice : ((t.slice first n).append (t.slice n last)).slice first last ∈ (a.slice first last).tables := by
    rw [← heq]
    refine mem_slice.2 ⟨⟨_, hmem, rfl⟩, hnot ?_⟩
    exact List.mem_filter.2 ⟨List.mem_append_left _ hbefore, Table.isWithin_iff.2 ⟨n, hinstant, hfirst, hlast⟩⟩
  obtain ⟨⟨u, hu, hsame⟩, -⟩ := mem_slice.1 hslice
  have htag := congrArg Table.tagText hsame
  rw [Text.eq_of_key_eq hdiff hu ht htag] at hsame
  exact append_slice_ne hrow hinstant hfirst hlast hsame.symm

end Answer
end SeriesCache
