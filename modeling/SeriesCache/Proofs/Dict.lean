import SeriesCache.Dict
/-!
# Laws of dictionaries

A dictionary is what `get?` says of it (`ext_get?`), and each operation is known by what `get?` says
afterwards.  A list of entries gives every key its last value (`get?_ofList_append`), and one whose keys
ascend is the dictionary itself (`entries_ofList`).
-/
namespace SeriesCache

theorem Text.ne_of_lt {a b : Text} (h : a < b) : a ≠ b := by
  rintro rfl
  exact List.lt_irrefl a h

namespace Dict

variable {α : Type}

/-! ## Entries -/

theorem find?_eq_some {k : Text} {v : α} : ∀ {es : List (Text × α)}, find? k es = some v → (k, v) ∈ es
  | e :: es, h => by
    rw [find?] at h
    split at h
    · rename_i hk
      cases hk
      cases h
      exact List.mem_cons_self
    · exact List.mem_cons_of_mem e (find?_eq_some h)

theorem find?_of_mem {k : Text} {v : α} : ∀ {es : List (Text × α)},
    (es.Pairwise fun a b => a.1 < b.1) → (k, v) ∈ es → find? k es = some v
  | e :: es, h, hmem => by
    obtain ⟨hlt, hes⟩ := List.pairwise_cons.1 h
    rcases List.mem_cons.1 hmem with rfl | hmem
    · exact if_pos rfl
    · rw [find?, if_neg (Text.ne_of_lt (hlt _ hmem))]
      exact find?_of_mem hes hmem

theorem find?_put (k k' : Text) (v : α) (es : List (Text × α)) :
    find? k' (put k v es) = if k = k' then some v else find? k' es := by
  fun_induction put k v es with
  | case1 => rfl
  | case2 => rfl
  | case3 e es _ heq =>
    rw [find?, find?]
    split
    · rfl
    · rename_i hk
      rw [if_neg (heq ▸ hk)]
  | case4 e es _ hne ih =>
    rw [find?, find?, ih]
    split
    · rename_i hk
      rw [if_neg fun heq => hne (heq.trans hk.symm)]
    · rfl

/-! ## Dictionaries -/

theorem mem_entries_iff {d : Dict α} {k : Text} {v : α} : (k, v) ∈ d.entries ↔ d.get? k = some v :=
  ⟨find?_of_mem d.ascending, find?_eq_some⟩

theorem eq_of_entries : ∀ {d e : Dict α}, d.entries = e.entries → d = e
  | ⟨_, _⟩, ⟨_, _⟩, rfl => rfl

theorem nodup_entries (d : Dict α) : d.entries.Nodup :=
  d.ascending.imp fun hlt heq => Text.ne_of_lt hlt (congrArg Prod.fst heq)

/-- **Dictionaries with the same entries are equal.** -/
theorem ext_get? {d e : Dict α} (h : ∀ k, d.get? k = e.get? k) : d = e := by
  have hmem (x : Text × α) : x ∈ d.entries ↔ x ∈ e.entries := by
    rw [mem_entries_iff, mem_entries_iff, h]
  have hirrefl : ∀ a b : Text × α, a ∈ d.entries → b ∈ e.entries → a.1 < b.1 → b.1 < a.1 → a = b :=
    fun a b _ _ hab hba => absurd (List.lt_trans hab hba) (List.lt_irrefl _)
  have hperm := (List.perm_ext_iff_of_nodup d.nodup_entries e.nodup_entries).2 hmem
  exact eq_of_entries (hperm.eq_of_pairwise hirrefl d.ascending e.ascending)

@[simp] theorem get?_empty (k : Text) : (empty : Dict α).get? k = none := rfl

theorem entries_insert (d : Dict α) (k : Text) (v : α) : (d.insert k v).entries = put k v d.entries := rfl

theorem get?_insert (d : Dict α) (k k' : Text) (v : α) :
    (d.insert k v).get? k' = if k = k' then some v else d.get? k' := find?_put k k' v d.entries

@[simp] theorem get?_insert_self (d : Dict α) (k : Text) (v : α) : (d.insert k v).get? k = some v := by
  rw [get?_insert, if_pos rfl]

theorem get?_insert_of_ne (d : Dict α) {k k' : Text} (h : k ≠ k') (v : α) :
    (d.insert k v).get? k' = d.get? k' := by
  rw [get?_insert, if_neg h]

theorem get?_filter (p : Text → Bool) (d : Dict α) (k : Text) :
    (d.filter p).get? k = if p k then d.get? k else none := by
  apply Option.ext
  intro v
  rw [← mem_entries_iff, filter, List.mem_filter, mem_entries_iff]
  cases p k <;> simp

theorem get?_erase (d : Dict α) (k k' : Text) :
    (d.erase k).get? k' = if k = k' then none else d.get? k' := by
  rw [erase, get?_filter]
  by_cases h : k = k' <;> simp [h, Ne.symm]

theorem insert_eq_self {d : Dict α} {k : Text} {v : α} (h : d.get? k = some v) : d.insert k v = d := by
  apply ext_get?
  intro k'
  rw [get?_insert]
  split
  · rename_i hk
    rw [← hk, h]
  · rfl

theorem erase_eq_self {d : Dict α} {k : Text} (h : d.get? k = none) : d.erase k = d := by
  apply ext_get?
  intro k'
  rw [get?_erase]
  split
  · rename_i hk
    rw [← hk, h]
  · rfl

/-- An insertion leaves the entries of all other keys. -/
theorem perm_insert (d : Dict α) (k : Text) (v : α) : (d.insert k v).entries.Perm ((k, v) :: (d.erase k).entries) := by
  have hnot : (k, v) ∉ (d.erase k).entries := by
    rw [mem_entries_iff, get?_erase, if_pos rfl]
    exact fun h => by cases h
  have hnodup := List.nodup_cons.2 ⟨hnot, (d.erase k).nodup_entries⟩
  refine (List.perm_ext_iff_of_nodup (d.insert k v).nodup_entries hnodup).2 fun ⟨k', v'⟩ => ?_
  rw [List.mem_cons, mem_entries_iff, mem_entries_iff, get?_insert, get?_erase]
  by_cases h : k = k' <;> simp [h, eq_comm]

/-! ## Lists of entries -/

theorem ofList_concat (es : List (Text × α)) (e : Text × α) :
    ofList (es ++ [e]) = (ofList es).insert e.1 e.2 := by
  rw [ofList, List.foldl_append]
  rfl

/-- **A later entry stands in place of an earlier one** with the same key. -/
theorem get?_ofList_append (es fs : List (Text × α)) (k : Text) :
    (ofList (es ++ fs)).get? k = ((ofList fs).get? k <|> (ofList es).get? k) := by
  induction fs generalizing es with
  | nil =>
    rw [List.append_nil]
    rfl
  | cons f fs ih =>
    have hfirst := ih [f]
    rw [List.singleton_append] at hfirst
    rw [List.append_cons, ih, hfirst, ofList_concat, get?_insert]
    cases (ofList fs).get? k with
    | some v => rfl
    | none =>
      change _ = ((if f.1 = k then some f.2 else none) <|> (ofList es).get? k)
      split <;> rfl

theorem get?_ofList_cons (e : Text × α) (es : List (Text × α)) (k : Text) :
    (ofList (e :: es)).get? k = ((ofList es).get? k <|> if e.1 = k then some e.2 else none) :=
  get?_ofList_append [e] es k

theorem mem_of_get?_ofList {k : Text} {v : α} : ∀ {es : List (Text × α)},
    (ofList es).get? k = some v → (k, v) ∈ es
  | [], h => by cases h
  | e :: es, h => by
    rw [get?_ofList_cons] at h
    cases hes : (ofList es).get? k with
    | some w =>
      rw [hes] at h
      cases h
      exact List.mem_cons_of_mem e (mem_of_get?_ofList hes)
    | none =>
      rw [hes] at h
      change (if e.1 = k then some e.2 else none) = some v at h
      split at h
      · rename_i hk
        cases hk
        cases h
        exact List.mem_cons_self
      · cases h

theorem get?_ofList_eq_none_iff {k : Text} : ∀ {es : List (Text × α)},
    (ofList es).get? k = none ↔ ∀ e ∈ es, e.1 ≠ k
  | [] => by simp [ofList]
  | e :: es => by
    rw [get?_ofList_cons, List.forall_mem_cons, ← get?_ofList_eq_none_iff]
    cases (ofList es).get? k with
    | some v => simp
    | none => simp

/-- A key all of whose entries agree has their value. -/
theorem get?_ofList_of_mem {k : Text} {v : α} {es : List (Text × α)} (h : (k, v) ∈ es)
    (hunique : ∀ w, (k, w) ∈ es → w = v) : (ofList es).get? k = some v := by
  cases hget : (ofList es).get? k with
  | none => exact absurd rfl (get?_ofList_eq_none_iff.1 hget _ h)
  | some w => rw [hunique w (mem_of_get?_ofList hget)]

/-- A key has the value that it has in a dictionary, if it stands in the list with that one alone. -/
theorem get?_ofList_eq {es : List (Text × α)} {d : Dict α} {k : Text}
    (h : ∀ v, (k, v) ∈ es ↔ d.get? k = some v) : (ofList es).get? k = d.get? k := by
  apply Option.ext
  intro v
  constructor
  · exact fun hv => (h v).1 (mem_of_get?_ofList hv)
  · exact fun hv => get?_ofList_of_mem ((h v).2 hv) fun w hw => Option.some.inj (((h w).1 hw).symm.trans hv)

/-- **A list of the entries of a dictionary**, in any order and however often, is the dictionary. -/
theorem ofList_eq_of_mem_iff {es : List (Text × α)} {d : Dict α} (h : ∀ e, e ∈ es ↔ e ∈ d.entries) : ofList es = d :=
  ext_get? fun k => get?_ofList_eq fun v => (h (k, v)).trans mem_entries_iff

/-- **A list whose keys ascend is a dictionary** as it stands. -/
theorem entries_ofList {es : List (Text × α)} (h : es.Pairwise fun a b => a.1 < b.1) :
    (ofList es).entries = es := by
  rw [ofList_eq_of_mem_iff (d := ⟨es, h⟩) fun _ => Iff.rfl]

/-! ## Keys and values -/

theorem mem_keys_iff {d : Dict α} {k : Text} : k ∈ d.keys ↔ ∃ v, d.get? k = some v := by
  unfold keys
  simp [← mem_entries_iff]

theorem mem_values_iff {d : Dict α} {v : α} : v ∈ d.values ↔ ∃ k, d.get? k = some v := by
  unfold values
  simp [← mem_entries_iff]

theorem perm_values_insert (d : Dict α) (k : Text) (v : α) : (d.insert k v).values.Perm (v :: (d.erase k).values) :=
  (d.perm_insert k v).map Prod.snd

theorem nodup_keys (d : Dict α) : d.keys.Nodup :=
  List.pairwise_map.2 (d.ascending.imp Text.ne_of_lt)

theorem length_keys (d : Dict α) : d.keys.length = d.size := List.length_map ..

theorem length_values (d : Dict α) : d.values.length = d.size := List.length_map ..

end Dict
end SeriesCache
