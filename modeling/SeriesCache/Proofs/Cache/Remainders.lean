import SeriesCache.Cache
import SeriesCache.Proofs.Number.Signed
/-!
# What is left of a window

The parts of a window outside of one that overlaps it are windows themselves, apart from that one and from
each other (`remainders_apart`), and together with it they are all instants from the earlier start to the
later end (`covered_of_hull`).  They are its gaps: what is largest among the windows inside of it that are apart
from the other one (`gaps_remainders`).
-/
namespace SeriesCache.Cache

open Signed

variable {first last first' last' : Int64}

theorem mem_remainders {p : Int64 × Int64} : p ∈ remainders first last first' last' ↔
    (first < first' ∧ p = (first, first' - 1)) ∨ (last' < last ∧ p = (last' + 1, last)) := by
  rw [remainders, List.mem_append]
  by_cases hbefore : first < first' <;> by_cases hbehind : last' < last <;> simp [hbefore, hbehind]

/-- Nothing is left of a window exactly when it lies in the other one. -/
theorem remainders_eq_nil_iff : remainders first last first' last' = [] ↔ first' ≤ first ∧ last ≤ last' := by
  rw [← Int64.not_lt, ← Int64.not_lt, remainders]
  by_cases hbefore : first < first' <;> by_cases hbehind : last' < last <;> simp [hbefore, hbehind]

theorem remainders_ordered {p : Int64 × Int64} (hp : p ∈ remainders first last first' last') : p.1 ≤ p.2 := by
  rcases mem_remainders.1 hp with ⟨h, rfl⟩ | ⟨h, rfl⟩
  · change first ≤ first' - 1
    rw [Int64.le_iff_toInt_le, toInt_pred h]
    exact Int.le_sub_one_of_lt (Int64.lt_iff_toInt_lt.1 h)
  · change last' + 1 ≤ last
    rw [Int64.le_iff_toInt_le, toInt_succ h]
    exact Int64.lt_iff_toInt_lt.1 h

/-- What is left is apart from the other window. -/
theorem remainders_apart {p : Int64 × Int64} (hp : p ∈ remainders first last first' last') :
    p.2 < first' ∨ last' < p.1 := by
  rcases mem_remainders.1 hp with ⟨h, rfl⟩ | ⟨h, rfl⟩
  · refine .inl (Int64.lt_iff_toInt_lt.2 ?_)
    change (first' - 1).toInt < first'.toInt
    rw [toInt_pred h]
    omega
  · refine .inr (Int64.lt_iff_toInt_lt.2 ?_)
    change last'.toInt < (last' + 1).toInt
    rw [toInt_succ h]
    omega

theorem remainders_pairwise (h : first' ≤ last') :
    (remainders first last first' last').Pairwise fun p q => p.2 < q.1 := by
  rw [remainders]
  by_cases hbefore : first < first' <;> by_cases hbehind : last' < last
  · rw [if_pos hbefore, if_pos hbehind]
    refine List.pairwise_pair.2 (Int64.lt_iff_toInt_lt.2 ?_)
    change (first' - 1).toInt < (last' + 1).toInt
    rw [toInt_pred hbefore, toInt_succ hbehind]
    have := Int64.le_iff_toInt_le.1 h
    omega
  all_goals simp [hbefore, hbehind]

theorem fst_hull (p q : Int64 × Int64) :
    (Answer.hull p q).1 = q.1 ∧ q.1 < p.1 ∨ (Answer.hull p q).1 = p.1 ∧ p.1 ≤ q.1 := by
  by_cases h : q.1 < p.1
  · exact .inl ⟨if_pos h, h⟩
  · exact .inr ⟨if_neg h, Int64.not_lt.1 h⟩

theorem snd_hull (p q : Int64 × Int64) :
    (Answer.hull p q).2 = q.2 ∧ p.2 < q.2 ∨ (Answer.hull p q).2 = p.2 ∧ q.2 ≤ p.2 := by
  by_cases h : p.2 < q.2
  · exact .inl ⟨if_pos h, h⟩
  · exact .inr ⟨if_neg h, Int64.not_lt.1 h⟩

theorem hull_eq (p q : Int64 × Int64) : Answer.hull p q = (min p.1 q.1, max p.2 q.2) := by
  have hmin : min p.1 q.1 = if p.1 ≤ q.1 then p.1 else q.1 := rfl
  have hmax : max p.2 q.2 = if p.2 ≤ q.2 then q.2 else p.2 := rfl
  refine Prod.ext ?_ ?_
  · rw [hmin]
    rcases fst_hull p q with ⟨hfst, h⟩ | ⟨hfst, h⟩
    · rw [hfst, if_neg (Int64.not_le.2 h)]
    · rw [hfst, if_pos h]
  · rw [hmax]
    rcases snd_hull p q with ⟨hsnd, h⟩ | ⟨hsnd, h⟩
    · rw [hsnd, if_pos (Int64.le_of_lt h)]
    · rw [hsnd]
      split
      · exact Int64.le_antisymm ‹_› h
      · rfl

/-- Both windows lie between the earlier start and the later end. -/
theorem inside_hull (p q : Int64 × Int64) : ((Answer.hull p q).1 ≤ p.1 ∧ p.2 ≤ (Answer.hull p q).2) ∧
    (Answer.hull p q).1 ≤ q.1 ∧ q.2 ≤ (Answer.hull p q).2 := by
  rcases fst_hull p q with ⟨hfst, h⟩ | ⟨hfst, h⟩ <;> rcases snd_hull p q with ⟨hsnd, h'⟩ | ⟨hsnd, h'⟩ <;>
    rw [hfst, hsnd] <;> simp only [Int64.lt_iff_toInt_lt, Int64.le_iff_toInt_le] at * <;> omega

theorem remainders_inside (hfirst : first ≤ last') (hlast : first' ≤ last) {p : Int64 × Int64}
    (hp : p ∈ remainders first last first' last') :
    (Answer.hull (first, last) (first', last')).1 ≤ p.1 ∧ p.2 ≤ (Answer.hull (first, last) (first', last')).2 := by
  obtain ⟨⟨hle, hge⟩, -⟩ := inside_hull (first, last) (first', last')
  rcases mem_remainders.1 hp with ⟨h, rfl⟩ | ⟨h, rfl⟩
  · refine ⟨hle, Int64.le_trans (Int64.le_iff_toInt_le.2 ?_) hge⟩
    change (first' - 1).toInt ≤ last.toInt
    rw [toInt_pred h]
    have := Int64.le_iff_toInt_le.1 hlast
    omega
  · refine ⟨Int64.le_trans hle (Int64.le_iff_toInt_le.2 ?_), hge⟩
    change first.toInt ≤ (last' + 1).toInt
    rw [toInt_succ h]
    have := Int64.le_iff_toInt_le.1 hfirst
    omega

/-- **What is left and the other window cover all** between the earlier start and the later end. -/
theorem covered_of_hull {n : Int64} (hle : (Answer.hull (first, last) (first', last')).1 ≤ n)
    (hge : n ≤ (Answer.hull (first, last) (first', last')).2) :
    (first' ≤ n ∧ n ≤ last') ∨ ∃ p ∈ remainders first last first' last', p.1 ≤ n ∧ n ≤ p.2 := by
  by_cases hbefore : n < first'
  · have h : first ≤ n := by
      rcases fst_hull (first, last) (first', last') with ⟨hfst, -⟩ | ⟨hfst, -⟩ <;> rw [hfst] at hle
      · exact absurd hle (Int64.not_le.2 hbefore)
      · exact hle
    have hlt := Int64.lt_of_le_of_lt h hbefore
    refine .inr ⟨(first, first' - 1), mem_remainders.2 (.inl ⟨hlt, rfl⟩), h, Int64.le_iff_toInt_le.2 ?_⟩
    rw [toInt_pred hlt]
    exact Int.le_sub_one_of_lt (Int64.lt_iff_toInt_lt.1 hbefore)
  · by_cases hbehind : last' < n
    · have h : n ≤ last := by
        rcases snd_hull (first, last) (first', last') with ⟨hsnd, -⟩ | ⟨hsnd, -⟩ <;> rw [hsnd] at hge
        · exact absurd hge (Int64.not_le.2 hbehind)
        · exact hge
      have hlt := Int64.lt_of_lt_of_le hbehind h
      refine .inr ⟨(last' + 1, last), mem_remainders.2 (.inr ⟨hlt, rfl⟩), Int64.le_iff_toInt_le.2 ?_, h⟩
      rw [toInt_succ hlt]
      exact Int64.lt_iff_toInt_lt.1 hbehind
    · exact .inl ⟨Int64.not_lt.1 hbefore, Int64.not_lt.1 hbehind⟩

/-! ## Gaps -/

/-- A window that lies in the first one and has no instant in common with the second. -/
structure IsFree (w m p : Int64 × Int64) : Prop where
  ordered : p.1 ≤ p.2
  inside : w.1 ≤ p.1 ∧ p.2 ≤ w.2
  apart : ∀ n, p.1 ≤ n → n ≤ p.2 → ¬ (m.1 ≤ n ∧ n ≤ m.2)

/-- A window that is free and lies in no other that is. -/
structure IsGap (w m p : Int64 × Int64) : Prop where
  free : IsFree w m p
  maximal : ∀ p', IsFree w m p' → p'.1 ≤ p.1 → p.2 ≤ p'.2 → p' = p

/-- The gaps that a window leaves in another one, the earlier first, with ends that did not overflow. -/
structure Gaps (w m : Int64 × Int64) (parts : List (Int64 × Int64)) : Prop where
  mem : ∀ p, p ∈ parts ↔ IsGap w m p
  ascending : parts.Pairwise fun p q => p.2 < q.1
  length : parts.length ≤ 2
  ends : ∀ p ∈ parts, (p.1.toInt = w.1.toInt ∧ p.2.toInt = m.1.toInt - 1) ∨
    (p.1.toInt = m.2.toInt + 1 ∧ p.2.toInt = w.2.toInt)
  covered : ∀ n, w.1 ≤ n → n ≤ w.2 → (m.1 ≤ n ∧ n ≤ m.2) ∨ ∃ p ∈ parts, p.1 ≤ n ∧ n ≤ p.2

theorem ends_remainders {p : Int64 × Int64} (hp : p ∈ remainders first last first' last') :
    (p.1.toInt = first.toInt ∧ p.2.toInt = first'.toInt - 1) ∨
    (p.1.toInt = last'.toInt + 1 ∧ p.2.toInt = last.toInt) := by
  rcases mem_remainders.1 hp with ⟨h, rfl⟩ | ⟨h, rfl⟩
  · exact .inl ⟨rfl, toInt_pred h⟩
  · exact .inr ⟨toInt_succ h, rfl⟩

/-- A free window ends before the other one starts or starts behind its end. -/
theorem IsFree.before_or_behind {w m p : Int64 × Int64} (h : IsFree w m p) (hm : m.1 ≤ m.2) :
    p.2 < m.1 ∨ m.2 < p.1 := by
  rcases Int64.lt_or_le p.2 m.1 with hbefore | hle
  · exact .inl hbefore
  · rcases Int64.lt_or_le m.2 p.1 with hbehind | hge
    · exact .inr hbehind
    · rcases Int64.le_total p.1 m.1 with h' | h'
      · exact absurd ⟨Int64.le_refl _, hm⟩ (h.apart m.1 h' hle)
      · exact absurd ⟨h', hge⟩ (h.apart p.1 (Int64.le_refl _) h.ordered)

theorem isFree_of_mem_remainders (hfirst : first ≤ last') (hlast : first' ≤ last) {p : Int64 × Int64}
    (hp : p ∈ remainders first last first' last') : IsFree (first, last) (first', last') p where
  ordered := remainders_ordered hp
  inside := by
    have hends := ends_remainders hp
    change first ≤ p.1 ∧ p.2 ≤ last
    rw [Int64.le_iff_toInt_le] at *
    rw [Int64.le_iff_toInt_le]
    omega
  apart n hle hge hin := by
    rcases remainders_apart hp with hbefore | hbehind
    · exact Int64.not_le.2 hbefore (Int64.le_trans hin.1 hge)
    · exact Int64.not_le.2 hbehind (Int64.le_trans hle hin.2)

theorem isGap_of_mem_remainders (hwindow : first' ≤ last') (hfirst : first ≤ last') (hlast : first' ≤ last)
    {p : Int64 × Int64} (hp : p ∈ remainders first last first' last') : IsGap (first, last) (first', last') p where
  free := isFree_of_mem_remainders hfirst hlast hp
  maximal p' hfree hle hge := by
    obtain ⟨hin, hin'⟩ := hfree.inside
    have hside := hfree.before_or_behind hwindow
    have hends := ends_remainders hp
    simp only [Int64.le_iff_toInt_le, Int64.lt_iff_toInt_lt] at *
    exact Prod.ext (Int64.toInt_inj.1 (by omega)) (Int64.toInt_inj.1 (by omega))

/-- **What is left of a window are its gaps**, if it overlaps the other one. -/
theorem gaps_remainders (hwindow : first' ≤ last') (hfirst : first ≤ last') (hlast : first' ≤ last) :
    Gaps (first, last) (first', last') (remainders first last first' last') where
  mem p := by
    refine ⟨isGap_of_mem_remainders hwindow hfirst hlast, fun hgap => ?_⟩
    have hin := hgap.free.inside
    -- A gap on one side lies in all that is free on that side.
    rcases hgap.free.before_or_behind hwindow with hbefore | hbehind
    · have hlt : first < first' := Int64.lt_of_le_of_lt (Int64.le_trans hin.1 hgap.free.ordered) hbefore
      have hmem : (first, first' - 1) ∈ remainders first last first' last' := mem_remainders.2 (.inl ⟨hlt, rfl⟩)
      have hend : p.2 ≤ first' - 1 := by
        rw [Int64.le_iff_toInt_le, toInt_pred hlt]
        exact Int.le_sub_one_of_lt (Int64.lt_iff_toInt_lt.1 hbefore)
      exact hgap.maximal _ (isFree_of_mem_remainders hfirst hlast hmem) hin.1 hend ▸ hmem
    · have hlt : last' < last := Int64.lt_of_lt_of_le hbehind (Int64.le_trans hgap.free.ordered hin.2)
      have hmem : (last' + 1, last) ∈ remainders first last first' last' := mem_remainders.2 (.inr ⟨hlt, rfl⟩)
      have hstart : last' + 1 ≤ p.1 := by
        rw [Int64.le_iff_toInt_le, toInt_succ hlt]
        exact Int64.lt_iff_toInt_lt.1 hbehind
      exact hgap.maximal _ (isFree_of_mem_remainders hfirst hlast hmem) hstart hin.2 ▸ hmem
  ascending := remainders_pairwise hwindow
  length := by
    rw [remainders]
    split <;> split <;> simp
  ends p hp := ends_remainders hp
  covered n hle hge := by
    obtain ⟨⟨hfst, hsnd⟩, -⟩ := inside_hull (first, last) (first', last')
    exact covered_of_hull (Int64.le_trans hfst hle) (Int64.le_trans hge hsnd)

end SeriesCache.Cache
