import SeriesCache.Proofs.Series.Fragments
/-!
# Fragments apart, and fragments in any order

Fragments are sorted by their windows, and sorting keeps the order of those it cannot tell apart: some of the
fragments sorted are what is left when the others are taken out of all of them sorted (`filter_mergeSort`).  So where
no window reaches into a gap wider than the tolerance, the fragments on its two sides are joined on their own, and
where all windows differ the order in which the fragments are given is forgotten (`Fragment.joinAll_apart`).
-/
namespace SeriesCache

namespace Fragment

variable {tolerance : Tolerance} {x y : Int64}

/-! ## Joining sorted fragments -/

/-- Fragments joined from the first one on. -/
def joinSorted (tolerance : Tolerance) : List Fragment → List Answer
  | [] => []
  | f :: fs => joinFrom tolerance f fs

theorem joinAll_eq (fragments : List Fragment) : joinAll tolerance fragments =
    joinSorted tolerance ((fragments.filter fun f => !f.answer.isEmpty).mergeSort isBefore) := by
  unfold joinAll joinSorted
  rfl

/-- The window of a fragment does not go beyond an instant. -/
def EndsBy (x : Int64) (f : Fragment) : Prop := f.first ≤ x ∧ f.last ≤ x

/-- The window of a fragment does not begin before an instant. -/
def StartsFrom (y : Int64) (f : Fragment) : Prop := y ≤ f.first ∧ y ≤ f.last

/-- Fragments on two sides of a gap wider than the tolerance are not joined. -/
theorem join?_eq_none (hxy : x < y) (hgap : tolerance.nanos.toInt < y.toInt - x.toInt) {f g : Fragment}
    (hf : f.EndsBy x) (hg : g.StartsFrom y) : join? tolerance f g = none := by
  obtain ⟨hfirst, hlast⟩ := hf
  obtain ⟨hfirst', hlast'⟩ := hg
  cases hjoin : join? tolerance f g with
  | none => rfl
  | some h =>
    exfalso
    obtain ⟨e, l, hcases, hadmits, -⟩ := exists_of_join? hjoin
    rw [admits_iff] at hadmits
    have hlt := Int64.lt_iff_toInt_lt.1 hxy
    simp only [Int64.le_iff_toInt_le] at *
    rcases hcases with ⟨rfl, rfl⟩ | ⟨rfl, rfl⟩ <;> omega

theorem EndsBy.join? {f g h : Fragment} (hf : f.EndsBy x) (hg : g.EndsBy x)
    (hjoin : Fragment.join? tolerance f g = some h) : h.EndsBy x := by
  obtain ⟨e, l, hcases, -, a, -, rfl⟩ := exists_of_join? hjoin
  have hboth : e.EndsBy x ∧ l.EndsBy x := by
    rcases hcases with ⟨rfl, rfl⟩ | ⟨rfl, rfl⟩
    · exact ⟨hf, hg⟩
    · exact ⟨hg, hf⟩
  refine ⟨hboth.1.1, ?_⟩
  unfold later
  split
  · exact hboth.2.2
  · exact hboth.1.2

/-- What is joined on one side of the gap stays there, and so the first fragment on the other side starts anew. -/
theorem joinFrom_append (hxy : x < y) (hgap : tolerance.nanos.toInt < y.toInt - x.toInt) {g : Fragment}
    (hg : g.StartsFrom y) (gs : List Fragment) : ∀ {fs : List Fragment} {f : Fragment}, f.EndsBy x →
    (∀ k ∈ fs, k.EndsBy x) → joinFrom tolerance f (fs ++ g :: gs) = joinFrom tolerance f fs ++ joinFrom tolerance g gs
  | [], f, hf, _ => by
    rw [List.nil_append, joinFrom.eq_2, join?_eq_none hxy hgap hf hg]
    rfl
  | k :: fs, f, hf, hfs => by
    obtain ⟨hk, hfs⟩ := List.forall_mem_cons.1 hfs
    rw [List.cons_append, joinFrom, joinFrom]
    split
    · rename_i h hjoin
      exact joinFrom_append hxy hgap hg gs (hf.join? hk hjoin) hfs
    · rw [joinFrom_append hxy hgap hg gs hk hfs]
      rfl

theorem joinSorted_append (hxy : x < y) (hgap : tolerance.nanos.toInt < y.toInt - x.toInt) {fs gs : List Fragment}
    (hfs : ∀ f ∈ fs, f.EndsBy x) (hgs : ∀ g ∈ gs, g.StartsFrom y) :
    joinSorted tolerance (fs ++ gs) = joinSorted tolerance fs ++ joinSorted tolerance gs := by
  cases fs with
  | nil => rfl
  | cons f fs =>
    cases gs with
    | nil => simp [joinSorted]
    | cons g gs =>
      obtain ⟨hf, hfs⟩ := List.forall_mem_cons.1 hfs
      exact joinFrom_append hxy hgap (hgs g List.mem_cons_self) gs hf hfs

/-! ## Fragments as they are given -/

/-- Fragments of a kind, sorted, are those of the kind among all of them sorted. -/
theorem sorted_filter (p : Fragment → Bool) (fragments : List Fragment) :
    ((fragments.filter p).filter fun f => !f.answer.isEmpty).mergeSort isBefore =
      ((fragments.filter fun f => !f.answer.isEmpty).mergeSort isBefore).filter p := by
  rw [filter_mergeSort isBefore_trans isBefore_total, List.filter_filter, List.filter_filter]
  congr 1
  exact List.filter_congr fun f _ => Bool.and_comm _ _

/-- **Fragments that start from one instant on stand behind those that end by an earlier one.** -/
theorem sorted_eq_append (hxy : x < y) {fragments : List Fragment} (hwindow : ∀ f ∈ fragments, f.first ≤ f.last)
    (hapart : ∀ f ∈ fragments, f.last ≤ x ∨ y ≤ f.first) : fragments.mergeSort isBefore =
      (fragments.mergeSort isBefore).filter (fun f => f.last ≤ x) ++
        (fragments.mergeSort isBefore).filter (fun f => y ≤ f.first) := by
  have hall := @filter_append_filter Fragment (fun f => f.last ≤ x) (fun f => y ≤ f.first) (fun _ => true)
    (fragments.mergeSort isBefore) ?each ?notBoth ?order
  · rw [hall, List.filter_eq_self.2 fun _ _ => rfl]
  all_goals simp only [Int64.le_iff_toInt_le, Int64.lt_iff_toInt_lt] at hwindow hapart hxy
  case each =>
    intro f hf
    rcases hapart f (List.mem_mergeSort.1 hf) with h | h <;> simp [Int64.le_iff_toInt_le, h]
  case notBoth =>
    intro f hf hboth
    have := hwindow f (List.mem_mergeSort.1 hf)
    simp only [decide_eq_true_eq, Int64.le_iff_toInt_le] at hboth
    omega
  case order =>
    refine (pairwise_sorted fragments).imp_of_mem fun {f g} hf hg hbefore hboth => ?_
    have hfw := hwindow f (List.mem_mergeSort.1 hf)
    have hgw := hwindow g (List.mem_mergeSort.1 hg)
    simp only [decide_eq_true_eq, isBefore_iff, Int64.lt_iff_toInt_lt, Int64.le_iff_toInt_le,
      ← Int64.toInt_inj] at hboth hbefore
    omega

/-- **Fragments that all have different windows have one order**, whichever they are given in. -/
theorem sorted_congr {fragments fragments' : List Fragment} (hperm : fragments'.Perm fragments)
    (hdiff : fragments.Pairwise fun f g => (f.first, f.last) ≠ (g.first, g.last)) :
    fragments'.mergeSort isBefore = fragments.mergeSort isBefore := by
  have hperm' := (List.mergeSort_perm fragments' isBefore).trans hperm
  have hsorted := pairwise_sorted fragments'
  have hsorted' := pairwise_sorted fragments
  refine (hperm'.trans (List.mergeSort_perm fragments isBefore).symm).eq_of_pairwise ?_ hsorted hsorted'
  intro f g hf hg hfg hgf
  have hsame : (f.first, f.last) = (g.first, g.last) := by
    simp only [isBefore_iff, Int64.lt_iff_toInt_lt, Int64.le_iff_toInt_le, ← Int64.toInt_inj, Prod.mk.injEq] at *
    omega
  exact Text.eq_of_key_eq hdiff (hperm'.mem_iff.1 hf) (List.mem_mergeSort.1 hg) hsame

/-- **Fragments apart never meet, and the order in which fragments are given does not matter.**  Where no window
reaches into the instants between two that are further apart than the tolerance, what the fragments come to is what
those on the one side come to, then what those on the other side do, whatever their tables are.  And where the windows
of the fragments with rows all differ, fragments come to the same in all orders. -/
theorem joinAll_apart (tolerance : Tolerance) {fragments : List Fragment}
    (hwindow : ∀ f ∈ fragments, f.first ≤ f.last) :
    (∀ x y : Int64, x < y → tolerance.nanos.toInt < y.toInt - x.toInt →
      (∀ f ∈ fragments, f.last ≤ x ∨ y ≤ f.first) →
      joinAll tolerance fragments = joinAll tolerance (fragments.filter fun f => f.last ≤ x) ++
        joinAll tolerance (fragments.filter fun f => y ≤ f.first)) ∧
    (((fragments.filter fun f => !f.answer.isEmpty).Pairwise fun f g => (f.first, f.last) ≠ (g.first, g.last)) →
      ∀ fragments', fragments'.Perm fragments → joinAll tolerance fragments' = joinAll tolerance fragments) := by
  constructor
  · intro x y hxy hgap hapart
    have hsplit := sorted_eq_append hxy (fun f hf => hwindow f (List.mem_filter.1 hf).1)
      fun f (hf : f ∈ fragments.filter fun f => !f.answer.isEmpty) => hapart f (List.mem_filter.1 hf).1
    have hmem {f : Fragment} {p : Fragment → Bool}
        (hf : f ∈ ((fragments.filter fun f => !f.answer.isEmpty).mergeSort isBefore).filter p) :
        f.first ≤ f.last ∧ p f = true := by
      obtain ⟨hf, hp⟩ := List.mem_filter.1 hf
      exact ⟨hwindow f (List.mem_filter.1 (List.mem_mergeSort.1 hf)).1, hp⟩
    rw [joinAll_eq fragments, hsplit, joinAll_eq, joinAll_eq, sorted_filter, sorted_filter]
    refine joinSorted_append hxy hgap (fun f hf => ?_) fun f hf => ?_
    · obtain ⟨hle, hx⟩ := hmem hf
      have hlast := of_decide_eq_true hx
      exact ⟨Int64.le_trans hle hlast, hlast⟩
    · obtain ⟨hle, hy⟩ := hmem hf
      have hfirst := of_decide_eq_true hy
      exact ⟨hfirst, Int64.le_trans hfirst hle⟩
  · intro hdiff fragments' hperm
    rw [joinAll_eq, joinAll_eq, sorted_congr (hperm.filter _) hdiff]

/-- Fragments at both ends of time, of two measurements, under the widest tolerance: the gap between them does not fit
64 bits. -/
theorem joinAll_apart_ends :
    let fragment (first last : Int64) (name : Text) : Fragment :=
      ⟨first, last, ⟨[⟨name, .empty, ["time".toList], [[.int64 first]]⟩], none⟩⟩
    let late := fragment 9000000000000000000 Int64.maxValue "a".toList
    let early := fragment Int64.minValue (-9000000000000000000) "a".toList
    let next := fragment (-8000000000000000000) (-7000000000000000000) "b".toList
    joinAll ⟨Int64.maxValue⟩ [late, next, early] =
        joinAll ⟨Int64.maxValue⟩ [next, early] ++ joinAll ⟨Int64.maxValue⟩ [late] ∧
      joinAll ⟨Int64.maxValue⟩ [early, next, late] = joinAll ⟨Int64.maxValue⟩ [late, next, early] := by
  intro fragment late early next
  obtain ⟨hsplit, hperm⟩ := @joinAll_apart ⟨Int64.maxValue⟩ [late, next, early] (by decide)
  constructor
  · exact hsplit (-7000000000000000000) 9000000000000000000 (by decide) (by decide) (by decide)
  · exact hperm (by decide) _ (List.reverse_perm [late, next, early])

end Fragment
end SeriesCache
