import SeriesCache.Proofs.Outcome
import SeriesCache.Proofs.Series.Join
/-!
# Series told apart

Tables are aligned by the text of their tags, and not by the tags themselves.  Two answers of the same series, told
apart by the values of the same tags, come to one table for all tags of either, with the rows of both, exactly if
different tags have different texts (`Answer.series_joined_iff`).  A comma in a value is written as it is, like the
commas between the tags, and there two series can be taken for one (`Answer.not_series_joined`).
-/
namespace SeriesCache

namespace Answer

/-! ## Tables under the text of their tags -/

theorem tagText_congr {t u : Table} (h : t.tags = u.tags) : t.tagText = u.tagText :=
  congrArg (fun tags : Dict Text => Table.tagListText tags.entries) h

/-- Every table stands under the text of its own tags. -/
def Keyed (d : Dict Table) : Prop := ∀ k t, d.get? k = some t → t.tagText = k

namespace Keyed

variable {d : Dict Table}

theorem addTable (h : Keyed d) (t : Table) : Keyed (addTable d t) := by
  intro k u hget
  rw [get?_addTable] at hget
  split at hget
  · rename_i hk
    cases hd : d.get? k with
    | none =>
      rw [hd] at hget
      cases hget
      exact hk
    | some v =>
      rw [hd] at hget
      cases hget
      exact h k v hd
  · exact h k u hget

theorem foldl : ∀ {tables : List Table} {d : Dict Table}, Keyed d → Keyed (tables.foldl Answer.addTable d)
  | [], _, h => h
  | t :: tables, d, h => by
    rw [List.foldl_cons]
    exact foldl (h.addTable t)

theorem byTags (tables : List Table) : Keyed (byTags tables) := by
  intro k t hget
  obtain ⟨u, -, heq⟩ := List.mem_map.1 (Dict.mem_of_get?_ofList hget)
  cases heq
  rfl

theorem mem_values (h : Keyed d) {t : Table} : t ∈ d.values ↔ d.get? t.tagText = some t := by
  rw [Dict.mem_values_iff]
  constructor
  · rintro ⟨k, hk⟩
    rwa [h k t hk]
  · exact fun ht => ⟨t.tagText, ht⟩

theorem ascending (h : Keyed d) : d.values.Pairwise fun t u => t.tagText < u.tagText := by
  refine List.pairwise_map.2 (d.ascending.imp_of_mem fun {a b} ha hb hlt => ?_)
  rwa [h a.1 a.2 (Dict.mem_entries_iff.1 ha), h b.1 b.2 (Dict.mem_entries_iff.1 hb)]

end Keyed

/-- The tables of two answers by their tags. -/
theorem keyed_aligned (earlier later : List Table) : Keyed (later.foldl addTable (byTags earlier)) :=
  (Keyed.byTags earlier).foldl

/-- Tables with the same keys are joined by their tags: of two single ones neither has tags when one has none. -/
theorem joinTables_of_keys {earlier later : List Table} (h : ∀ t ∈ earlier, ∀ u ∈ later, t.tags.keys = u.tags.keys) :
    joinTables earlier later = (later.foldl addTable (byTags earlier)).values := by
  refine joinTables_eq fun e l he hl htagless => tagText_congr (Dict.eq_of_entries ?_)
  have hkeys : e.tags.keys = l.tags.keys := h e (he ▸ List.mem_cons_self) l (hl ▸ List.mem_cons_self)
  have hlength : e.tags.entries.length = l.tags.entries.length := by
    simpa [Dict.keys] using congrArg List.length hkeys
  rcases Bool.or_eq_true_iff.1 htagless with hnil | hnil <;> rw [Dict.isEmpty, List.isEmpty_iff] at hnil <;>
    rw [hnil] at hlength ⊢
  · exact List.eq_nil_of_length_eq_zero hlength.symm
  · exact (List.eq_nil_of_length_eq_zero hlength).symm

theorem tableOfBoth_eq_some {x y : Option Table} {t : Table} (h : tableOfBoth x y = some t) :
    (x = some t ∧ y = none) ∨ (x = none ∧ y = some t) ∨ ∃ e l, x = some e ∧ y = some l ∧ t = e.append l := by
  cases x with
  | none => exact .inr (.inl ⟨rfl, h⟩)
  | some e =>
    cases y with
    | none => exact .inl ⟨h, rfl⟩
    | some l => exact .inr (.inr ⟨e, l, rfl, rfl, (Option.some.inj h).symm⟩)

/-- **Where the tables of two answers come from**, joined by their tags. -/
theorem exists_of_mem_aligned {earlier later : List Table} (he : earlier.Pairwise fun t u => t.tagText ≠ u.tagText)
    (hl : later.Pairwise fun t u => t.tagText ≠ u.tagText) {t : Table}
    (ht : t ∈ (later.foldl addTable (byTags earlier)).values) :
    t ∈ earlier ∨ t ∈ later ∨ ∃ e ∈ earlier, ∃ l ∈ later, t = e.append l := by
  rw [(keyed_aligned earlier later).mem_values, get?_foldl_addTable _ _ hl] at ht
  obtain ⟨hx, -⟩ | ⟨-, hy⟩ | ⟨e, l, hx, hy, heq⟩ := tableOfBoth_eq_some ht
  · exact .inl ((get?_byTags_eq_some_iff he).1 hx).1
  · exact .inr (.inl ((get?_byTags_eq_some_iff hl).1 hy).1)
  · exact .inr (.inr ⟨e, ((get?_byTags_eq_some_iff he).1 hx).1, l, ((get?_byTags_eq_some_iff hl).1 hy).1, heq⟩)

/-- **No tags are lost**: a table of either answer has its rows in one under the same text of tags. -/
theorem exists_aligned {earlier later : List Table} (he : earlier.Pairwise fun t u => t.tagText ≠ u.tagText)
    (hl : later.Pairwise fun t u => t.tagText ≠ u.tagText) {u : Table} (hu : u ∈ earlier ++ later) :
    ∃ t ∈ (later.foldl addTable (byTags earlier)).values, t.tagText = u.tagText := by
  have hkeyed := keyed_aligned earlier later
  obtain ⟨t, hget⟩ : ∃ t, (later.foldl addTable (byTags earlier)).get? u.tagText = some t := by
    rw [get?_foldl_addTable _ _ hl]
    rcases List.mem_append.1 hu with hu | hu
    · rw [(get?_byTags_eq_some_iff he).2 ⟨hu, rfl⟩]
      cases (byTags later).get? u.tagText <;> exact ⟨_, rfl⟩
    · rw [(get?_byTags_eq_some_iff hl).2 ⟨hu, rfl⟩]
      cases (byTags earlier).get? u.tagText <;> exact ⟨_, rfl⟩
  have htext := hkeyed _ t hget
  exact ⟨t, hkeyed.mem_values.2 (htext ▸ hget), htext⟩

/-- The rows of a table, if there is one. -/
def rowsOf : Option Table → List Row
  | none => []
  | some t => t.rows

theorem rows_tableOfBoth {x y : Option Table} {t : Table} (h : tableOfBoth x y = some t) :
    t.rows = rowsOf x ++ rowsOf y := by
  obtain ⟨rfl, rfl⟩ | ⟨rfl, rfl⟩ | ⟨e, l, rfl, rfl, rfl⟩ := tableOfBoth_eq_some h
  · exact (List.append_nil _).symm
  · rfl
  · rfl

end Answer

/-! ## Tags and their text -/

namespace Table

/-- Tables with different tags have different texts of them. -/
def ToldApart (tables : List Table) : Prop :=
  ∀ t ∈ tables, ∀ u ∈ tables, t.tagText = u.tagText → t.tags = u.tags

/-- **Where no value but the last has a comma**, the values can be told from the text. -/
theorem eq_of_tagListText : ∀ {es es' : List (Text × Text)}, es.map Prod.fst = es'.map Prod.fst →
    (∀ v ∈ (es.map Prod.snd).dropLast, ',' ∉ v) → (∀ v ∈ (es'.map Prod.snd).dropLast, ',' ∉ v) →
    tagListText es = tagListText es' → es = es'
  | [], [], _, _, _, _ => rfl
  | [e], [e'], hkeys, _, _, h => by
    have hkey : e.1 = e'.1 := (List.cons.inj hkeys).1
    have htext : e.1 ++ '=' :: e.2 = e'.1 ++ '=' :: e'.2 := h
    rw [hkey] at htext
    have hvalue := (List.cons.inj (List.append_cancel_left htext)).2
    rw [Prod.ext hkey hvalue]
  | [_], _ :: _ :: _, hkeys, _, _, _ => by cases (List.cons.inj hkeys).2
  | _ :: _ :: _, [_], hkeys, _, _, _ => by cases (List.cons.inj hkeys).2
  | e :: f :: es, e' :: f' :: es', hkeys, hvalues, hvalues', h => by
    have hkey : e.1 = e'.1 := (List.cons.inj hkeys).1
    obtain ⟨hcomma, hmore⟩ := List.forall_mem_cons.1 hvalues
    obtain ⟨hcomma', hmore'⟩ := List.forall_mem_cons.1 hvalues'
    have htext : e.1 ++ '=' :: (e.2 ++ ',' :: tagListText (f :: es)) =
        e'.1 ++ '=' :: (e'.2 ++ ',' :: tagListText (f' :: es')) := by
      simpa [tagListText, Text.join] using h
    rw [hkey] at htext
    have hbehind := (List.cons.inj (List.append_cancel_left htext)).2
    obtain ⟨hvalue, hrest⟩ := Text.append_cons_inj hcomma hcomma' hbehind
    rw [Prod.ext hkey hvalue, eq_of_tagListText (List.cons.inj hkeys).2 hmore hmore' hrest]

/-- Tables with the same tags are told apart by the texts of their values as soon as none of these but the last has a
comma. -/
theorem toldApart_of_commas {tables : List Table} {keys : List Text} (hkeys : ∀ t ∈ tables, t.tags.keys = keys)
    (hvalues : ∀ t ∈ tables, ∀ v ∈ t.tags.values.dropLast, ',' ∉ v) : ToldApart tables := by
  intro t ht u hu htext
  apply Dict.eq_of_entries
  exact eq_of_tagListText ((hkeys t ht).trans (hkeys u hu).symm) (hvalues t ht) (hvalues u hu) htext

end Table

/-! ## Joined series -/

namespace Answer

/-- Tables of one measurement, with the same columns and the same tags, which differ in their values. -/
structure IsOfSeries (name : Text) (columns keys : List Text) (a : Answer) : Prop where
  name : ∀ t ∈ a.tables, t.name = name
  columns : ∀ t ∈ a.tables, t.columns = columns
  keys : ∀ t ∈ a.tables, t.tags.keys = keys
  distinct : a.tables.Pairwise fun t u => t.tags ≠ u.tags

/-- The rows that an answer has for some tags. -/
def rowsUnder (tags : Dict Text) (a : Answer) : List Row :=
  (a.tables.filter fun t => t.tags = tags).flatMap Table.rows

/-- One table for all tags of either answer, with the rows of the earlier one and then those of the later one. -/
structure JoinsSeries (earlier later joined : Answer) : Prop where
  once : joined.tables.Pairwise fun t u => t.tags ≠ u.tags
  tags : ∀ tags, (∃ t ∈ joined.tables, t.tags = tags) ↔ ∃ t ∈ earlier.tables ++ later.tables, t.tags = tags
  rows : ∀ t ∈ joined.tables, t.rows = earlier.rowsUnder t.tags ++ later.rowsUnder t.tags

variable {earlier later : Answer} {name : Text} {columns keys : List Text}

/-- The rows that an answer has for some tags are those of the table under their text, when no other tags have it. -/
theorem rowsUnder_eq {a : Answer} (hdistinct : a.tables.Pairwise fun t u => t.tagText ≠ u.tagText) {t : Table}
    (htold : ∀ u ∈ a.tables, u.tagText = t.tagText → u.tags = t.tags) :
    a.rowsUnder t.tags = rowsOf ((byTags a.tables).get? t.tagText) := by
  unfold rowsUnder
  cases hget : (byTags a.tables).get? t.tagText with
  | none =>
    have hnone : a.tables.filter (fun u => u.tags = t.tags) = [] := by
      refine List.filter_eq_nil_iff.2 fun u hu htags => ?_
      have hsome := (get?_byTags_eq_some_iff hdistinct).2 ⟨hu, tagText_congr (of_decide_eq_true htags)⟩
      rw [hget] at hsome
      cases hsome
    rw [hnone]
    rfl
  | some u =>
    obtain ⟨hu, htext⟩ := (get?_byTags_eq_some_iff hdistinct).1 hget
    have htags := htold u hu htext
    have hone : a.tables.filter (fun v => v.tags = t.tags) = a.tables.filter (· = u) := by
      refine List.filter_congr fun v hv => decide_eq_decide.2 ⟨fun hvtags => ?_, fun heq => heq ▸ htags⟩
      exact Text.eq_of_key_eq hdistinct hv hu (tagText_congr (hvtags.trans htags.symm))
    have hnodup : a.tables.Nodup := hdistinct.imp fun hne heq => hne (congrArg Table.tagText heq)
    rw [hone, List.filter_eq, hnodup.count, if_pos hu]
    exact List.append_nil _

/-- Tables of a series that are told apart by the texts of their tags have different texts. -/
theorem IsOfSeries.pairwise_tagText {a : Answer} (h : a.IsOfSeries name columns keys) (htold : Table.ToldApart a.tables) :
    a.tables.Pairwise fun t u => t.tagText ≠ u.tagText :=
  h.distinct.imp_of_mem fun {t u} ht hu hne htext => hne (htold t ht u hu htext)

/-- A table for each text of tags is one for each of the tags only if these are told apart by their texts. -/
theorem toldApart_of_joinsSeries {joined : Answer} (hascending : joined.tables.Pairwise fun t u => t.tagText < u.tagText)
    (h : JoinsSeries earlier later joined) : Table.ToldApart (earlier.tables ++ later.tables) := by
  intro t ht u hu htext
  obtain ⟨t', ht', htags⟩ := (h.tags t.tags).2 ⟨t, ht, rfl⟩
  obtain ⟨u', hu', hutags⟩ := (h.tags u.tags).2 ⟨u, hu, rfl⟩
  have hsame : t' = u' := by
    refine Text.eq_of_key_eq (hascending.imp Text.ne_of_lt) ht' hu' ?_
    rw [tagText_congr htags, tagText_congr hutags, htext]
  rw [← htags, ← hutags, hsame]

/-- **Series that are told apart by the texts of their tags are joined series by series.** -/
theorem joinsSeries_of_toldApart (he : earlier.IsOfSeries name columns keys) (hl : later.IsOfSeries name columns keys)
    (htold : Table.ToldApart (earlier.tables ++ later.tables)) {joined : Answer}
    (hjoined : joined.tables = (later.tables.foldl addTable (byTags earlier.tables)).values) :
    JoinsSeries earlier later joined := by
  have hedistinct := he.pairwise_tagText fun t ht u hu =>
    htold t (List.mem_append_left _ ht) u (List.mem_append_left _ hu)
  have hldistinct := hl.pairwise_tagText fun t ht u hu =>
    htold t (List.mem_append_right _ ht) u (List.mem_append_right _ hu)
  -- Every table that comes out has the tags of one that goes in, and is the only one under their text.
  have hfrom {t : Table} (ht : t ∈ joined.tables) : ∃ u ∈ earlier.tables ++ later.tables, u.tags = t.tags := by
    obtain he | hl | ⟨e, he, l, -, rfl⟩ := exists_of_mem_aligned hedistinct hldistinct (hjoined ▸ ht)
    · exact ⟨t, List.mem_append_left _ he, rfl⟩
    · exact ⟨t, List.mem_append_right _ hl, rfl⟩
    · exact ⟨e, List.mem_append_left _ he, rfl⟩
  have htoldOf {t u : Table} (ht : t ∈ joined.tables) (hu : u ∈ earlier.tables ++ later.tables)
      (htext : u.tagText = t.tagText) : u.tags = t.tags := by
    obtain ⟨v, hv, htags⟩ := hfrom ht
    rw [htold u hu v hv (htext.trans (tagText_congr htags).symm), htags]
  have hkeyed := keyed_aligned earlier.tables later.tables
  constructor
  · rw [hjoined]
    exact hkeyed.ascending.imp fun hlt htags => Text.ne_of_lt hlt (tagText_congr htags)
  · refine fun tags => ⟨?_, ?_⟩
    · rintro ⟨t, ht, rfl⟩
      exact hfrom ht
    · rintro ⟨u, hu, rfl⟩
      obtain ⟨t, ht, htext⟩ := exists_aligned hedistinct hldistinct hu
      rw [← hjoined] at ht
      exact ⟨t, ht, (htoldOf ht hu htext.symm).symm⟩
  · intro t ht
    have hget := hkeyed.mem_values.1 (hjoined ▸ ht)
    rw [get?_foldl_addTable _ _ hldistinct] at hget
    rw [rowsUnder_eq hedistinct fun u hu => htoldOf ht (List.mem_append_left _ hu),
      rowsUnder_eq hldistinct fun u hu => htoldOf ht (List.mem_append_right _ hu)]
    exact rows_tableOfBoth hget

/-- **Series are kept apart, and none is lost, exactly if their tags have different texts.**  Two answers of one
measurement with the same columns, whose tables all have the same tags and differ in their values, can always be
joined.  What they come to has one table for all tags of either answer, with exactly the rows of both under these
tags, if and only if no two of all the tables have different tags of one text; and that is so as soon as no value but
the last of a table has a comma. -/
theorem series_joined_iff (he : earlier.IsOfSeries name columns keys) (hl : later.IsOfSeries name columns keys) :
    ∃ joined, earlier.join later = .ok joined ∧
      (JoinsSeries earlier later joined ↔ Table.ToldApart (earlier.tables ++ later.tables)) ∧
      ((∀ t ∈ earlier.tables ++ later.tables, ∀ v ∈ t.tags.values.dropLast, ',' ∉ v) →
        JoinsSeries earlier later joined) := by
  have hjoin := join_eq (fun t ht u hu => (he.name t ht).trans (hl.name u hu).symm)
    fun t ht u hu => (he.columns t ht).trans (hl.columns u hu).symm
  rw [joinTables_of_keys fun t ht u hu => (he.keys t ht).trans (hl.keys u hu).symm] at hjoin
  refine ⟨_, hjoin, ⟨toldApart_of_joinsSeries (keyed_aligned _ _).ascending, fun htold => ?_⟩, fun hvalues => ?_⟩
  · exact joinsSeries_of_toldApart he hl htold rfl
  · have hall : ∀ t ∈ earlier.tables ++ later.tables, t.tags.keys = keys :=
      fun t ht => (List.mem_append.1 ht).elim (he.keys t) (hl.keys t)
    exact joinsSeries_of_toldApart he hl (Table.toldApart_of_commas hall hvalues) rfl

/-- Two series of which one is in both answers, and a comma in the value of the last tag. -/
theorem series_joined_iff_zones :
    let table (host zone : String) (rows : List Row) : Table :=
      ⟨"m".toList, .ofList [("host".toList, host.toList), ("zone".toList, zone.toList)], ["time".toList, "v".toList], rows⟩
    let earlier : Answer := ⟨[table "a" "x,zone=y" [[.int64 1, .int64 7]], table "b" "" [[.int64 2, .null]]], none⟩
    let later : Answer := ⟨[table "a" "x" [[.int64 5, .int64 8]], table "b" "" [[.int64 4, .int64 9]]], none⟩
    ∃ joined, earlier.join later = .ok joined ∧ JoinsSeries earlier later joined := by
  intro table earlier later
  have hearlier : earlier.IsOfSeries "m".toList ["time".toList, "v".toList] ["host".toList, "zone".toList] :=
    ⟨by decide, by decide, by decide, by decide⟩
  have hlater : later.IsOfSeries "m".toList ["time".toList, "v".toList] ["host".toList, "zone".toList] :=
    ⟨by decide, by decide, by decide, by decide⟩
  obtain ⟨joined, hjoin, -, hjoins⟩ := series_joined_iff hearlier hlater
  exact ⟨joined, hjoin, hjoins (by decide)⟩

/-- **Different series can be joined.**  The tags of the two tables are written alike, as a=1,b=2,b=3, and the row of
the later one is put under the tags of the earlier one. -/
theorem not_series_joined :
    let table (a b : String) (rows : List Row) : Table :=
      ⟨"m".toList, .ofList [("a".toList, a.toList), ("b".toList, b.toList)], ["time".toList, "v".toList], rows⟩
    let earlier : Answer := ⟨[table "1,b=2" "3" [[.int64 10, .int64 1]]], none⟩
    let later : Answer := ⟨[table "1" "2,b=3" [[.int64 20, .int64 2]]], none⟩
    earlier.IsOfSeries "m".toList ["time".toList, "v".toList] ["a".toList, "b".toList] ∧
    later.IsOfSeries "m".toList ["time".toList, "v".toList] ["a".toList, "b".toList] ∧
    earlier.join later = .ok ⟨[table "1,b=2" "3" [[.int64 10, .int64 1], [.int64 20, .int64 2]]], none⟩ ∧
    ¬ ∃ joined, earlier.join later = .ok joined ∧ JoinsSeries earlier later joined := by
  intro table earlier later
  have hjoin : earlier.join later =
      .ok ⟨[table "1,b=2" "3" [[.int64 10, .int64 1], [.int64 20, .int64 2]]], none⟩ :=
    Outcome.eq_ok_of_toOption (by decide)
  refine ⟨⟨by decide, by decide, by decide, by decide⟩,
    ⟨by decide, by decide, by decide, by decide⟩, hjoin, ?_⟩
  rintro ⟨joined, heq, hjoins⟩
  rw [hjoin] at heq
  cases heq
  have hlost : ¬ ∃ t ∈ [table "1,b=2" "3" [[.int64 10, .int64 1], [.int64 20, .int64 2]]],
      t.tags = (table "1" "2,b=3" []).tags := by decide
  exact hlost ((hjoins.tags _).2 ⟨_, List.mem_append_right _ List.mem_cons_self, rfl⟩)

end Answer
end SeriesCache
