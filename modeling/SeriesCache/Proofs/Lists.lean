/-!
# Lists

Laws of lists that no definition of this library has a part in: what filters and sorting make of the order of the
items, and what a search for the first item or a fold that keeps the last one finds.
-/
namespace SeriesCache

variable {α β : Type}

theorem map_eq_self_iff {f : α → α} {items : List α} : items.map f = items ↔ ∀ a ∈ items, f a = a :=
  ⟨fun h => List.map_inj_left.1 (h.trans (List.map_id _).symm), fun h => (List.map_congr_left h).trans (List.map_id _)⟩

/-! ## Finding one item -/

/-- A fold in which an item with a value takes the place of what was found before finds the last value. -/
theorem foldl_eq_getLast? {f : Option β → α → Option β} {g : α → Option β}
    (hf : ∀ found a, f found a = (g a).or found) : ∀ (items : List α) (found : Option β),
    items.foldl f found = ((items.filterMap g).getLast?).or found
  | [], found => rfl
  | a :: items, found => by
    rw [List.foldl_cons, foldl_eq_getLast? hf items, hf]
    cases ha : g a with
    | none => rw [List.filterMap_cons_none ha, Option.none_or]
    | some b =>
      rw [List.filterMap_cons_some ha, List.getLast?_cons]
      cases (items.filterMap g).getLast? <;> rfl

/-- The first item that has a value is a given one that has, or stands in front of it. -/
theorem exists_of_findSome?_eq_some {R : α → α → Prop} {f : α → Option β} {items : List α} {a : α} {b : β}
    (hsorted : items.Pairwise R) (ha : a ∈ items) (hfa : f a ≠ none) (h : items.findSome? f = some b) :
    ∃ first, f first = some b ∧ (first = a ∨ R first a) := by
  obtain ⟨front, first, rest, rfl, hfirst, hfront⟩ := List.findSome?_eq_some_iff.1 h
  refine ⟨first, hfirst, ?_⟩
  rcases List.mem_append.1 ha with ha | ha
  · exact absurd (hfront a ha) hfa
  · rcases List.mem_cons.1 ha with rfl | ha
    · exact .inl rfl
    · exact .inr ((List.pairwise_cons.1 (List.pairwise_append.1 hsorted).2.1).1 a ha)

/-! ## Filters -/

/-- The items of one kind before those of another, when they stand in that order, are the items of both. -/
theorem filter_append_filter {p q r : α → Bool} : ∀ {items : List α},
    (∀ a ∈ items, r a = (p a || q a)) → (∀ a ∈ items, ¬ (p a = true ∧ q a = true)) →
    (items.Pairwise fun a b => ¬ (q a = true ∧ p b = true)) →
    items.filter p ++ items.filter q = items.filter r
  | [], _, _, _ => rfl
  | a :: items, hr, hpq, h => by
    obtain ⟨ha, hitems⟩ := List.pairwise_cons.1 h
    have hra := hr a List.mem_cons_self
    have ih := filter_append_filter (fun b hb => hr b (List.mem_cons_of_mem a hb))
      (fun b hb => hpq b (List.mem_cons_of_mem a hb)) hitems
    rw [List.filter_cons, List.filter_cons, List.filter_cons, hra, ← ih]
    cases hp : p a with
    | true =>
      have hq : q a = false := by simpa [hp] using hpq a List.mem_cons_self
      simp [hq]
    | false =>
      cases hq : q a with
      | true =>
        have hnil : items.filter p = [] := List.filter_eq_nil_iff.2 fun b hb hpb => ha b hb ⟨hq, hpb⟩
        simp [hnil]
      | false => simp

/-! ## Stable sorting -/

variable {le : α → α → Bool}

/-- An item stands, in all items sorted, in front of those that are not before it. -/
theorem mergeSort_cons_eq (htrans : ∀ a b c, le a b = true → le b c = true → le a c = true)
    (htotal : ∀ a b, (le a b || le b a) = true) (a : α) (items : List α) :
    (a :: items).mergeSort le =
      (items.mergeSort le).filter (fun b => !le a b) ++ a :: (items.mergeSort le).filter (fun b => le a b) := by
  obtain ⟨front, rest, hall, hitems, hfront⟩ := List.mergeSort_cons htrans htotal a items
  have hsorted := List.pairwise_mergeSort htrans htotal (a :: items)
  rw [hall] at hsorted
  have hrest : ∀ b ∈ rest, le a b = true := (List.pairwise_cons.1 (List.pairwise_append.1 hsorted).2.1).1
  have hnone : rest.filter (fun b => !le a b) = [] :=
    List.filter_eq_nil_iff.2 fun b hb => by simp [hrest b hb]
  have hnone' : front.filter (fun b => le a b) = [] :=
    List.filter_eq_nil_iff.2 fun b hb => by simpa using hfront b hb
  rw [hall, hitems, List.filter_append, List.filter_append, hnone, hnone', List.filter_eq_self.2 hfront,
    List.filter_eq_self.2 hrest, List.append_nil, List.nil_append]

/-- **Sorting is stable**: it does not matter whether items are picked before or after. -/
theorem filter_mergeSort (htrans : ∀ a b c, le a b = true → le b c = true → le a c = true)
    (htotal : ∀ a b, (le a b || le b a) = true) (p : α → Bool) : ∀ items : List α,
    (items.mergeSort le).filter p = (items.filter p).mergeSort le
  | [] => by simp
  | a :: items => by
    have ih := filter_mergeSort htrans htotal p items
    by_cases ha : p a = true
    · have hcomm (q : α → Bool) :
          ((items.mergeSort le).filter q).filter p = ((items.filter p).mergeSort le).filter q := by
        rw [← ih, List.filter_filter, List.filter_filter]
        exact List.filter_congr fun b _ => Bool.and_comm _ _
      rw [mergeSort_cons_eq htrans htotal, List.filter_append, List.filter_cons_of_pos ha, List.filter_cons_of_pos ha,
        mergeSort_cons_eq htrans htotal, hcomm, hcomm]
    · obtain ⟨front, rest, hall, hitems, -⟩ := List.mergeSort_cons htrans htotal a items
      rw [hitems, List.filter_append] at ih
      rw [hall, List.filter_append, List.filter_cons_of_neg ha, List.filter_cons_of_neg ha, ih]

end SeriesCache
