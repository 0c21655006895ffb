import SeriesCache.Proofs.Number.Signed
import SeriesCache.Proofs.Series.Fragments
/-!
# Two slices that meet

A slice up to some instant and one from some instant on, which together leave out none, are joined to the slice over
both windows or not at all, as long as they do not meet in an instant of which there is a row (`joinAll_around`).
If they do, they are joined, and the row stands twice (`joinAll_twice`).
-/
namespace SeriesCache.Fragment

open Signed

variable {a : Answer} {tolerance : Tolerance} {first last upTo fromOn : Int64}

/-- A fragment without rows adds nothing. -/
theorem joinAll_cons_of_isEmpty {f : Fragment} (hf : f.answer.isEmpty = true) (fs : List Fragment) :
    joinAll tolerance (f :: fs) = joinAll tolerance fs := by
  rw [joinAll.eq_def, joinAll.eq_def, List.filter_cons_of_neg (by simp [hf])]

/-- Of two fragments with rows, the one that starts earlier comes first. -/
theorem joinAll_pair {f g : Fragment} (hf : f.answer.isEmpty = false) (hg : g.answer.isEmpty = false)
    (hlt : f.first < g.first) : joinAll tolerance [f, g] = joinFrom tolerance f [g] := by
  have hfilter : [f, g].filter (fun f => !f.answer.isEmpty) = [f, g] := by simp [hf, hg]
  have hsorted : [f, g].mergeSort isBefore = [f, g] :=
    List.mergeSort_of_pairwise (List.pairwise_pair.2 (isBefore_iff.2 (.inl hlt)))
  rw [joinAll.eq_def, hfilter, hsorted]

/-- Of two fragments with rows, the earlier one is joined with the later one or they both stay. -/
theorem joinAll_pair_of_join {f g : Fragment} {b : Answer} (hf : f.answer.isEmpty = false)
    (hg : g.answer.isEmpty = false) (hlt : f.first < g.first) (hend : f.first < g.last)
    (hjoin : f.answer.join g.answer = .ok b) :
    joinAll tolerance [f, g] = if tolerance.admits f.last g.first then [b] else [f.answer, g.answer] := by
  have hback : tolerance.admits g.last f.first = false := admits_eq_false hend
  rw [joinAll_pair hf hg hlt, joinFrom, join?]
  cases tolerance.admits f.last g.first with
  | true => simp [hjoin, joinFrom]
  | false => simp [hback, joinFrom]

theorem isEmpty_eq_false_of_holds {n : Int64} (hn : a.Holds n) (hfirst : first ≤ n) (hlast : n ≤ last) :
    (a.slice first last).isEmpty = false := by
  rw [Bool.eq_false_iff, ne_eq, Answer.isEmpty_slice_iff]
  exact hn.slice hfirst hlast

/-- Slices of which the second starts where the first one ends, or right behind it, come to the slice over both
windows when there is no row in common. -/
theorem join_of_meeting (h : a.Aligned) (hfirst : first < fromOn) (hupTo : upTo ≤ last) (hlast : fromOn ≤ last)
    (hall : fromOn.toInt ≤ upTo.toInt + 1) (hle : upTo ≤ fromOn) (hmeet : upTo = fromOn → ¬ a.Holds upTo) :
    (a.slice first upTo).join (a.slice fromOn last) = .ok (a.slice first last) := by
  by_cases hsame : upTo = fromOn
  · -- No row stands where they meet, so the first one may as well end before.
    subst hsame
    have hpred := toInt_pred hfirst
    have hshort : a.slice first upTo = a.slice first (upTo - 1) := by
      refine Answer.slice_congr fun n hn => and_congr_right fun _ => ?_
      have hne : n.toInt ≠ upTo.toInt := fun heq => hmeet rfl (Int64.toInt_inj.1 heq ▸ hn)
      rw [Int64.le_iff_toInt_le, Int64.le_iff_toInt_le, hpred]
      omega
    rw [hshort]
    refine Answer.join_slice h (Int64.le_of_lt hfirst) ?_ ?_ fun n _ => ?_ <;>
      simp only [Int64.le_iff_toInt_le, Int64.lt_iff_toInt_lt, hpred] at * <;> omega
  · have hne : upTo.toInt ≠ fromOn.toInt := fun heq => hsame (Int64.toInt_inj.1 heq)
    refine Answer.join_slice h (Int64.le_of_lt hfirst) hupTo ?_ fun n _ => ?_ <;>
      simp only [Int64.le_iff_toInt_le, Int64.lt_iff_toInt_lt] at * <;> omega

theorem not_le_of_isEmpty {n : Int64} (h : (a.slice first last).isEmpty = true) (hn : a.Holds n) (hfirst : first ≤ n) :
    ¬ n ≤ last := by
  intro hlast
  rw [isEmpty_eq_false_of_holds hn hfirst hlast] at h
  cases h

/-- When the rest of a window has no rows, the slice up to there is the slice over the window. -/
theorem slice_of_isEmpty_after (hside : ∀ n, n ≤ upTo ∨ fromOn ≤ n) (hupTo : upTo ≤ last)
    (h : (a.slice fromOn last).isEmpty = true) : a.slice first upTo = a.slice first last := by
  refine Answer.slice_congr fun n hn => and_congr_right fun _ => ⟨fun hle => Int64.le_trans hle hupTo, fun hle => ?_⟩
  exact (hside n).resolve_right fun hfrom => not_le_of_isEmpty h hn hfrom hle

theorem slice_of_isEmpty_before (hside : ∀ n, n ≤ upTo ∨ fromOn ≤ n) (hfromOn : first ≤ fromOn)
    (h : (a.slice first upTo).isEmpty = true) : a.slice fromOn last = a.slice first last := by
  refine Answer.slice_congr fun n hn => and_congr_left fun _ => ⟨fun hle => Int64.le_trans hfromOn hle, fun hle => ?_⟩
  exact (hside n).resolve_left (not_le_of_isEmpty h hn hle)

/-- **Two slices that together leave out no instant** are joined to the slice over both windows, unless they meet in
an instant that has a row. -/
theorem joinAll_around (h : a.Orderly) {f g : Fragment} (hf : f.answer = a.slice f.first f.last)
    (hg : g.answer = a.slice g.first g.last) (hfirst : f.first < g.first) (hupTo : f.last ≤ g.last)
    (hlast : g.first ≤ g.last) (hall : g.first.toInt ≤ f.last.toInt + 1) (hmeet : f.last = g.first → ¬ a.Holds f.last) :
    (joinAll tolerance [f, g] = [] → a.slice f.first g.last = .empty) ∧
      ∀ b, joinAll tolerance [f, g] = [b] → b = a.slice f.first g.last := by
  have hside (n : Int64) : n ≤ f.last ∨ g.first ≤ n := by
    rw [Int64.le_iff_toInt_le, Int64.le_iff_toInt_le]
    omega
  have hend : f.first < g.last := Int64.lt_of_lt_of_le hfirst hlast
  cases hfe : f.answer.isEmpty <;> cases hge : g.answer.isEmpty
  · -- Both have rows, and there is one answer only if the second follows the first.
    by_cases hadmits : tolerance.admits f.last g.first = true
    · have hle : f.last ≤ g.first := (admits_iff.1 hadmits).1
      have hjoin := join_of_meeting h.aligned hfirst hupTo hlast hall hle hmeet
      rw [← hf, ← hg] at hjoin
      rw [joinAll_pair_of_join hfe hge hfirst hend hjoin, if_pos hadmits]
      exact ⟨fun heq => (by cases heq), fun b hb => (List.cons.inj hb).1.symm⟩
    · have hjoin := Answer.join_slices h.aligned f.first f.last g.first g.last
      rw [← hf, ← hg] at hjoin
      rw [joinAll_pair_of_join hfe hge hfirst hend hjoin, if_neg hadmits]
      exact ⟨fun heq => (by cases heq), fun b hb => (by cases hb)⟩
  · have hone : joinAll tolerance [f, g] = [f.answer] := joinAll_of_filter (by simp [hfe, hge])
    rw [hone, hf, slice_of_isEmpty_after hside hupTo (hg ▸ hge)]
    exact ⟨fun heq => (by cases heq), fun b hb => (List.cons.inj hb).1.symm⟩
  · have hone : joinAll tolerance [f, g] = [g.answer] := joinAll_of_filter (by simp [hfe, hge])
    rw [hone, hg, slice_of_isEmpty_before hside (Int64.le_of_lt hfirst) (hf ▸ hfe)]
    exact ⟨fun heq => (by cases heq), fun b hb => (List.cons.inj hb).1.symm⟩
  · have hnone : joinAll tolerance [f, g] = [] := by
      rw [joinAll.eq_def]
      simp [hfe, hge]
    rw [hnone]
    refine ⟨fun _ => Answer.slice_eq_empty h.error fun n hn hwithin => ?_, fun b hb => (by cases hb)⟩
    rcases hside n with hle | hle
    · exact not_le_of_isEmpty (hf ▸ hfe) hn hwithin.1 hle
    · exact not_le_of_isEmpty (hg ▸ hge) hn hle hwithin.2

/-- **Two slices that meet in an instant with a row** are joined, and it stands twice in what they come to. -/
theorem joinAll_twice (h : a.Orderly) (htolerance : 0 ≤ tolerance.nanos) {f g : Fragment} {n : Int64}
    (hf : f.answer = a.slice f.first n) (hg : g.answer = a.slice n g.last) (hupTo : f.last = n) (hfromOn : g.first = n)
    (hfirst : f.first < n) (hlast : n ≤ g.last) (hn : a.Holds n) :
    ∃ b, joinAll tolerance [f, g] = [b] ∧ b.slice f.first g.last ≠ a.slice f.first g.last := by
  have hbefore := Int64.le_of_lt hfirst
  obtain ⟨b, hjoin, hb⟩ := Answer.join_shared h.aligned hn hbefore hlast
  have hadmits : tolerance.admits f.last g.first = true := by
    rw [admits_iff, hupTo, hfromOn, Int.sub_self]
    exact ⟨Int64.le_refl n, Int64.le_iff_toInt_le.1 htolerance⟩
  have hfe : f.answer.isEmpty = false := hf ▸ isEmpty_eq_false_of_holds hn hbefore (Int64.le_refl n)
  have hge : g.answer.isEmpty = false := hg ▸ isEmpty_eq_false_of_holds hn (Int64.le_refl n) hlast
  rw [← hf, ← hg] at hjoin
  refine ⟨b, ?_, hb⟩
  rw [joinAll_pair_of_join hfe hge (hfromOn ▸ hfirst) (Int64.lt_of_lt_of_le hfirst hlast) hjoin, if_pos hadmits]

end SeriesCache.Fragment
