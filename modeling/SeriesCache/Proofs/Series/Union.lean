import SeriesCache.Proofs.Series.Alignment
/-!
# Joined answers as a union

What two answers come to is their union by the texts of the tags: one table for each text that either of them has, with
the rows of both (`Answer.join_isUnion`).  It is refused only for the first tables, when these differ in name or in
columns.  Answers of one shape can be joined in either grouping, and come to the same (`Answer.join_assoc`); that needs
all of them to have tags or none, since a single table without tags takes in any other single table.
-/
namespace SeriesCache.Answer

/-! ## When answers cannot be joined -/

/-- **The first tables decide** whether two answers can be joined, and what is said when they cannot. -/
theorem join_eq_error_iff {earlier later : Answer} {e : MergeError} : earlier.join later = .error e ↔
    ∃ t u, earlier.tables.head? = some t ∧ later.tables.head? = some u ∧
      (t.name ≠ u.name ∧ e = .measurements t.name u.name ∨
        t.name = u.name ∧ t.columns ≠ u.columns ∧ e = .columns t.columns u.columns) := by
  cases hearlier : earlier.tables with
  | nil => simp [join, hearlier]
  | cons t ts =>
    cases hlater : later.tables with
    | nil => simp [join, hearlier, hlater]
    | cons u us =>
      by_cases hname : t.name = u.name
      · by_cases hcolumns : t.columns = u.columns
        · simp [join, hearlier, hlater, hname, hcolumns]
        · simp [join, hearlier, hlater, hname, hcolumns, eq_comm]
      · simp [join, hearlier, hlater, hname, eq_comm]

/-! ## The union of two answers -/

/-- One table for each text of tags that either answer has, in order: with the rows of both where both have one, under
the head of the earlier one, and the table itself where only one has it. -/
structure IsUnion (earlier later joined : Answer) : Prop where
  ascending : joined.tables.Pairwise fun t u => t.tagText < u.tagText
  texts : ∀ k, k ∈ joined.tables.map Table.tagText ↔
    k ∈ earlier.tables.map Table.tagText ∨ k ∈ later.tables.map Table.tagText
  both : ∀ e ∈ earlier.tables, ∀ l ∈ later.tables, e.tagText = l.tagText →
    { e with rows := e.rows ++ l.rows } ∈ joined.tables
  earlierAlone : ∀ e ∈ earlier.tables, (∀ l ∈ later.tables, l.tagText ≠ e.tagText) → e ∈ joined.tables
  laterAlone : ∀ l ∈ later.tables, (∀ e ∈ earlier.tables, e.tagText ≠ l.tagText) → l ∈ joined.tables
  error : joined.error = (earlier.error <|> later.error)

theorem get?_byTags_eq_none_iff {tables : List Table} {k : Text} :
    (byTags tables).get? k = none ↔ ∀ t ∈ tables, t.tagText ≠ k := by
  rw [byTags, Dict.get?_ofList_eq_none_iff, List.forall_mem_map]

/-- The tables of two answers by their tags. -/
def union (earlier later : Answer) : Answer :=
  ⟨(later.tables.foldl addTable (byTags earlier.tables)).values, earlier.error <|> later.error⟩

theorem isUnion_union {earlier later : Answer} (he : earlier.tables.Pairwise fun t u => t.tagText ≠ u.tagText)
    (hl : later.tables.Pairwise fun t u => t.tagText ≠ u.tagText) : IsUnion earlier later (earlier.union later) := by
  have hkeyed := keyed_aligned earlier.tables later.tables
  have hmem {k : Text} {x y : Option Table} {t : Table} (hx : (byTags earlier.tables).get? k = x)
      (hy : (byTags later.tables).get? k = y) (ht : tableOfBoth x y = some t) :
      t ∈ (later.tables.foldl addTable (byTags earlier.tables)).values := by
    refine Dict.mem_values_iff.2 ⟨k, ?_⟩
    rw [get?_foldl_addTable _ _ hl, hx, hy, ht]
  refine ⟨hkeyed.ascending, fun k => ?_, fun e hearlier l hlater htext => ?_, fun e hearlier hnone => ?_,
    fun l hlater hnone => ?_, rfl⟩
  · rw [← List.mem_append, ← List.map_append]
    constructor
    · intro hk
      obtain ⟨t, ht, rfl⟩ := List.mem_map.1 hk
      obtain ht | ht | ⟨e, hearlier, l, -, rfl⟩ := exists_of_mem_aligned he hl ht
      · exact List.mem_map_of_mem (List.mem_append_left _ ht)
      · exact List.mem_map_of_mem (List.mem_append_right _ ht)
      · exact List.mem_map.2 ⟨e, List.mem_append_left _ hearlier, rfl⟩
    · intro hk
      obtain ⟨u, hu, rfl⟩ := List.mem_map.1 hk
      obtain ⟨t, ht, htext⟩ := exists_aligned he hl hu
      exact List.mem_map.2 ⟨t, ht, htext⟩
  · exact hmem ((get?_byTags_eq_some_iff he).2 ⟨hearlier, rfl⟩) ((get?_byTags_eq_some_iff hl).2 ⟨hlater, htext.symm⟩) rfl
  · exact hmem ((get?_byTags_eq_some_iff he).2 ⟨hearlier, rfl⟩) (get?_byTags_eq_none_iff.2 hnone) rfl
  · exact hmem (get?_byTags_eq_none_iff.2 hnone) ((get?_byTags_eq_some_iff hl).2 ⟨hlater, rfl⟩) rfl

/-- **Joined answers are a union, unless a table without tags takes in another.**  Two answers cannot be joined exactly
if both have tables and the first ones differ in name or in columns.  What they come to otherwise is their union, when
each of them has different texts of tags and they are not two single tables of which one has no tags. -/
theorem join_isUnion (earlier later : Answer) :
    ((∃ e, earlier.join later = .error e) ↔ ∃ t u, earlier.tables.head? = some t ∧ later.tables.head? = some u ∧
      (t.name ≠ u.name ∨ t.columns ≠ u.columns)) ∧
    ∀ joined, earlier.join later = .ok joined →
      (earlier.tables.Pairwise fun t u => t.tagText ≠ u.tagText) →
      (later.tables.Pairwise fun t u => t.tagText ≠ u.tagText) →
      (¬ ∃ e l, earlier.tables = [e] ∧ later.tables = [l] ∧ (e.tags.isEmpty || l.tags.isEmpty) = true) →
      IsUnion earlier later joined := by
  refine ⟨?_, fun joined hjoin he hl hsingle => ?_⟩
  · constructor
    · rintro ⟨e, herror⟩
      obtain ⟨t, u, ht, hu, hdiff⟩ := join_eq_error_iff.1 herror
      exact ⟨t, u, ht, hu, hdiff.imp And.left fun h => h.2.1⟩
    · rintro ⟨t, u, ht, hu, hdiff⟩
      by_cases hname : t.name = u.name
      · exact ⟨_, join_eq_error_iff.2 ⟨t, u, ht, hu, .inr ⟨hname, hdiff.resolve_left (not_not_intro hname), rfl⟩⟩⟩
      · exact ⟨_, join_eq_error_iff.2 ⟨t, u, ht, hu, .inl ⟨hname, rfl⟩⟩⟩
  · have htables : joinTables earlier.tables later.tables =
        (later.tables.foldl addTable (byTags earlier.tables)).values :=
      joinTables_eq fun e l hearlier hlater htags => absurd ⟨e, l, hearlier, hlater, htags⟩ hsingle
    rw [eq_of_join hjoin, htables]
    exact isUnion_union he hl

/-- Tables out of order, of which the later ones have other heads than the earlier ones. -/
theorem join_isUnion_heads :
    let table (name host : String) (columns : List String) (instants : List Int64) : Table :=
      ⟨name.toList, .ofList [("host".toList, host.toList)], columns.map String.toList, instants.map fun n => [.int64 n]⟩
    let earlier : Answer := ⟨[table "m" "c" ["time"] [1], table "k" "a" ["time", "v"] [2]], none⟩
    let later : Answer := ⟨[table "m" "b" ["time"] [], table "m" "a" ["time"] [3, 3]], some "late".toList⟩
    let joined : Answer :=
      ⟨[table "k" "a" ["time", "v"] [2, 3, 3], table "m" "b" ["time"] [], table "m" "c" ["time"] [1]], some "late".toList⟩
    earlier.join later = .ok joined ∧ IsUnion earlier later joined := by
  intro table earlier later joined
  have hjoin : earlier.join later = .ok joined := Outcome.eq_ok_of_toOption (by decide)
  refine ⟨hjoin, (join_isUnion earlier later).2 joined hjoin (by decide) (by decide) ?_⟩
  rintro ⟨e, l, hsingle, -⟩
  cases hsingle

/-! ## Grouping -/

theorem tableOfBoth_assoc (x y z : Option Table) :
    tableOfBoth (tableOfBoth x y) z = tableOfBoth x (tableOfBoth y z) := by
  cases x <;> cases y <;> cases z <;> simp [tableOfBoth, Table.append]

/-- Tables that stand under the texts of their tags are their own dictionary. -/
theorem Keyed.byTags_values {d : Dict Table} (h : Keyed d) : Answer.byTags d.values = d := by
  apply Dict.ext_get?
  intro k
  apply Option.ext
  intro t
  rw [get?_byTags_eq_some_iff (h.ascending.imp Text.ne_of_lt), h.mem_values]
  exact ⟨fun ⟨hget, hk⟩ => hk ▸ hget, fun hget => by rw [h k t hget]; exact ⟨hget, rfl⟩⟩

/-- Tables of one measurement with the same columns, told apart by the texts of their tags. -/
structure OfShape (name : Text) (columns : List Text) (a : Answer) : Prop where
  name : ∀ t ∈ a.tables, t.name = name
  columns : ∀ t ∈ a.tables, t.columns = columns
  distinct : a.tables.Pairwise fun t u => t.tagText ≠ u.tagText

/-- All tables have tags. -/
def Tagged (a : Answer) : Prop := ∀ t ∈ a.tables, t.tags.isEmpty = false

/-- A single table without tags, or none. -/
def Tagless (a : Answer) : Prop := a.tables = [] ∨ ∃ t, a.tables = [t] ∧ t.tags.isEmpty = true

theorem Tagless.isEmpty {a : Answer} (h : a.Tagless) : ∀ t ∈ a.tables, t.tags.isEmpty = true := by
  intro t ht
  rcases h with hnil | ⟨u, hone, htags⟩
  · rw [hnil] at ht
    cases ht
  · rw [hone, List.mem_singleton] at ht
    rwa [ht]

theorem byTags_union (x y : Answer) : byTags (x.union y).tables = y.tables.foldl addTable (byTags x.tables) :=
  (keyed_aligned x.tables y.tables).byTags_values

/-- **The union is associative**: under each text of tags stand the rows of all three, in turn. -/
theorem union_assoc (a : Answer) {b c : Answer} (hb : b.tables.Pairwise fun t u => t.tagText ≠ u.tagText)
    (hc : c.tables.Pairwise fun t u => t.tagText ≠ u.tagText) : (a.union b).union c = a.union (b.union c) := by
  have hbc : (b.union c).tables.Pairwise fun t u => t.tagText ≠ u.tagText :=
    (keyed_aligned b.tables c.tables).ascending.imp Text.ne_of_lt
  have htables : c.tables.foldl addTable (byTags (a.union b).tables) =
      (b.union c).tables.foldl addTable (byTags a.tables) := by
    apply Dict.ext_get?
    intro k
    rw [get?_foldl_addTable _ _ hc, byTags_union, get?_foldl_addTable _ _ hb, get?_foldl_addTable _ _ hbc,
      byTags_union, get?_foldl_addTable _ _ hc, tableOfBoth_assoc]
  have herror : ((a.error <|> b.error) <|> c.error) = (a.error <|> b.error <|> c.error) := by
    cases a.error <;> rfl
  rw [union, htables]
  exact congrArg (Answer.mk _) herror

namespace OfShape

variable {x y : Answer} {name : Text} {columns : List Text} {tagless : Bool}

/-- Answers of one shape, all with tags or all without, are joined by their tags. -/
theorem join_eq_union (hx : x.OfShape name columns) (hy : y.OfShape name columns)
    (hxtags : ∀ t ∈ x.tables, t.tags.isEmpty = tagless) (hytags : ∀ t ∈ y.tables, t.tags.isEmpty = tagless) :
    x.join y = .ok (x.union y) := by
  rw [join_eq (fun t ht u hu => (hx.name t ht).trans (hy.name u hu).symm)
    fun t ht u hu => (hx.columns t ht).trans (hy.columns u hu).symm, joinTables_eq]
  · rfl
  · intro e l he hl htags
    have hetags := hxtags e (he ▸ List.mem_cons_self)
    have hltags := hytags l (hl ▸ List.mem_cons_self)
    rw [hetags, hltags, Bool.or_self] at htags
    rw [htags, Dict.isEmpty, List.isEmpty_iff] at hetags hltags
    exact tagText_congr (Dict.eq_of_entries (hltags.trans hetags.symm))

/-- What holds of the heads of all tables that go in, holds of those that come out. -/
theorem forall_union {P : Text → Dict Text → List Text → Prop} (hx : x.OfShape name columns)
    (hy : y.OfShape name columns) (hxhead : ∀ t ∈ x.tables, P t.name t.tags t.columns)
    (hyhead : ∀ t ∈ y.tables, P t.name t.tags t.columns) :
    ∀ t ∈ (x.union y).tables, P t.name t.tags t.columns := by
  intro t ht
  obtain ht | ht | ⟨e, he, l, -, rfl⟩ := exists_of_mem_aligned hx.distinct hy.distinct ht
  · exact hxhead t ht
  · exact hyhead t ht
  · exact hxhead e he

theorem union (hx : x.OfShape name columns) (hy : y.OfShape name columns) : (x.union y).OfShape name columns where
  name := forall_union hx hy (P := fun n _ _ => n = name) hx.name hy.name
  columns := forall_union hx hy (P := fun _ _ cs => cs = columns) hx.columns hy.columns
  distinct := (keyed_aligned x.tables y.tables).ascending.imp Text.ne_of_lt

end OfShape

/-- **Joining is associative** on answers of one measurement with the same columns, each with different texts of tags, if
all tables have tags or no answer has more than a single table without any: either grouping can be joined, and both come
to the same answer. -/
theorem join_assoc {a b c : Answer} {name : Text} {columns : List Text} (ha : a.OfShape name columns)
    (hb : b.OfShape name columns) (hc : c.OfShape name columns)
    (htags : a.Tagged ∧ b.Tagged ∧ c.Tagged ∨ a.Tagless ∧ b.Tagless ∧ c.Tagless) :
    ∃ ab bc abc, a.join b = .ok ab ∧ b.join c = .ok bc ∧ ab.join c = .ok abc ∧ a.join bc = .ok abc := by
  obtain ⟨tagless, hatags, hbtags, hctags⟩ : ∃ tagless, (∀ t ∈ a.tables, t.tags.isEmpty = tagless) ∧
      (∀ t ∈ b.tables, t.tags.isEmpty = tagless) ∧ ∀ t ∈ c.tables, t.tags.isEmpty = tagless := by
    rcases htags with h | ⟨hatags, hbtags, hctags⟩
    · exact ⟨false, h⟩
    · exact ⟨true, hatags.isEmpty, hbtags.isEmpty, hctags.isEmpty⟩
  have habtags := ha.forall_union hb (P := fun _ tags _ => tags.isEmpty = tagless) hatags hbtags
  have hbctags := hb.forall_union hc (P := fun _ tags _ => tags.isEmpty = tagless) hbtags hctags
  refine ⟨a.union b, b.union c, (a.union b).union c, ha.join_eq_union hb hatags hbtags,
    hb.join_eq_union hc hbtags hctags, (ha.union hb).join_eq_union hc habtags hctags, ?_⟩
  rw [union_assoc a hb.distinct hc.distinct]
  exact ha.join_eq_union (hb.union hc) hatags hbctags

/-- Hosts that are in one, two or three of the answers, which are not in order, and two errors. -/
theorem join_assoc_hosts :
    let table (host : String) (instants : List Int64) : Table :=
      ⟨"m".toList, .ofList [("host".toList, host.toList)], ["time".toList], instants.map fun n => [.int64 n]⟩
    let a : Answer := ⟨[table "b" [1], table "a" [1, 2]], none⟩
    let b : Answer := ⟨[table "d" [3], table "a" [], table "c" [4]], some "slow".toList⟩
    let c : Answer := ⟨[table "c" [5], table "b" [5], table "a" [5]], some "late".toList⟩
    ∃ ab bc abc, a.join b = .ok ab ∧ b.join c = .ok bc ∧ ab.join c = .ok abc ∧ a.join bc = .ok abc := by
  intro table a b c
  have ha : a.OfShape "m".toList ["time".toList] := ⟨by decide, by decide, by decide⟩
  have hb : b.OfShape "m".toList ["time".toList] := ⟨by decide, by decide, by decide⟩
  have hc : c.OfShape "m".toList ["time".toList] := ⟨by decide, by decide, by decide⟩
  have htags : a.Tagged ∧ b.Tagged ∧ c.Tagged :=
    ⟨show ∀ t ∈ a.tables, t.tags.isEmpty = false by decide, show ∀ t ∈ b.tables, t.tags.isEmpty = false by decide,
      show ∀ t ∈ c.tables, t.tags.isEmpty = false by decide⟩
  exact join_assoc ha hb hc (.inl htags)

/-- A table without tags takes in one host after another, but not both at once. -/
example :
    let table (tags : List (Text × Text)) (n : Int64) : Table :=
      ⟨"m".toList, .ofList tags, ["time".toList], [[.int64 n]]⟩
    let a : Answer := ⟨[table [] 1], none⟩
    let b : Answer := ⟨[table [("host".toList, "a".toList)] 2], none⟩
    let c : Answer := ⟨[table [("host".toList, "b".toList)] 3], none⟩
    ((a.join b >>= (·.join c)).toOption.map fun x => x.tables.map fun t => t.rows.length) = some [3] ∧
    ((b.join c >>= (a.join ·)).toOption.map fun x => x.tables.map fun t => t.rows.length) = some [1, 1, 1] := by
  decide

end SeriesCache.Answer
