import Mathlib.Data.List.Chain
import SeriesCache.Proofs.Series.Join
/-!
# Fragments of one answer

Fragments that are slices of one answer over windows apart from each other are put in the order of their
windows.  Where they all join, they come to the slice over all of the windows, and where none has a row,
that slice is empty (`Fragment.joinAll_slices`).
-/
namespace SeriesCache.Fragment

/-- The fragment is the slice of an answer over its window. -/
structure IsSliceOf (a : Answer) (f : Fragment) : Prop where
  window : f.first ≤ f.last
  answer : f.answer = a.slice f.first f.last

/-- The window of one fragment ends before that of another starts. -/
def Precedes (f g : Fragment) : Prop := f.last < g.first

/-! ## The order of windows -/

theorem isBefore_iff {f g : Fragment} :
    f.isBefore g = true ↔ f.first < g.first ∨ f.first = g.first ∧ f.last ≤ g.last := by
  simp [isBefore]

theorem isBefore_trans (f g h : Fragment) (hfg : f.isBefore g = true) (hgh : g.isBefore h = true) :
    f.isBefore h = true := by
  simp only [isBefore_iff, Int64.lt_iff_toInt_lt, Int64.le_iff_toInt_le, ← Int64.toInt_inj] at *
  omega

theorem isBefore_total (f g : Fragment) : (f.isBefore g || g.isBefore f) = true := by
  simp only [Bool.or_eq_true, isBefore_iff, Int64.lt_iff_toInt_lt, Int64.le_iff_toInt_le, ← Int64.toInt_inj]
  omega

theorem pairwise_sorted (fragments : List Fragment) :
    (fragments.mergeSort isBefore).Pairwise fun f g => f.isBefore g = true :=
  List.pairwise_mergeSort isBefore_trans isBefore_total fragments

theorem Precedes.of_isBefore {f g : Fragment} (hg : g.first ≤ g.last) (hapart : f.Precedes g ∨ g.Precedes f)
    (h : f.isBefore g = true) : f.Precedes g := by
  refine hapart.resolve_right fun hgf => ?_
  rw [isBefore_iff] at h
  simp only [Precedes, Int64.lt_iff_toInt_lt, Int64.le_iff_toInt_le, ← Int64.toInt_inj] at *
  omega

/-- **Fragments that are apart have one order.** -/
theorem pairwise_precedes_sorted {fragments : List Fragment} (hwindow : ∀ f ∈ fragments, f.first ≤ f.last)
    (hapart : fragments.Pairwise fun f g => f.Precedes g ∨ g.Precedes f) :
    (fragments.mergeSort isBefore).Pairwise Precedes := by
  have hperm := List.mergeSort_perm fragments isBefore
  have hboth := (pairwise_sorted fragments).and (hperm.symm.pairwise hapart Or.symm)
  refine hboth.imp_of_mem ?_
  rintro f g - hg ⟨hbefore, hfg⟩
  exact .of_isBefore (hwindow g (hperm.mem_iff.1 hg)) hfg hbefore

/-! ## Joining two -/

variable {a : Answer} {tolerance : Tolerance}

theorem joinFrom_ne_nil : ∀ (f : Fragment) (fs : List Fragment), joinFrom tolerance f fs ≠ []
  | _, [] => List.cons_ne_nil _ _
  | f, g :: gs => by
    rw [joinFrom]
    split
    · exact joinFrom_ne_nil _ gs
    · exact List.cons_ne_nil _ _

/-- A gap is admitted when it is no wider than the tolerance, in exact integers: one that does not fit 64 bits is
wider than every tolerance. -/
theorem admits_iff {last first : Int64} : tolerance.admits last first = true ↔
    last ≤ first ∧ first.toInt - last.toInt ≤ tolerance.nanos.toInt := by
  have hnanos := tolerance.nanos.toInt_lt
  have hnanos' := tolerance.nanos.le_toInt
  unfold Tolerance.admits
  rw [Bool.and_eq_true, decide_eq_true_eq]
  refine and_congr_right fun hle => ?_
  rw [Int64.le_iff_toInt_le] at hle
  cases hsub : Signed.sub? first last with
  | some gap => simp only [decide_eq_true_eq, Int64.le_iff_toInt_le, Signed.toInt_of_ofInt? hsub]
  | none =>
    have hwide : ¬ (first.toInt - last.toInt ≤ tolerance.nanos.toInt) := by
      intro hfits
      rw [Signed.sub?, Signed.ofInt?, if_pos ⟨by omega, by omega⟩] at hsub
      cases hsub
    simpa using hwide

theorem admits_eq_false {last first : Int64} (h : first < last) : tolerance.admits last first = false := by
  rw [Bool.eq_false_iff, ne_eq, admits_iff]
  exact fun hadmits => Int64.not_le.2 h hadmits.1

/-- **What joining two fragments can do**: one of them follows the other within the tolerance, and the windows and
answers are joined in that order. -/
theorem exists_of_join? {f g h : Fragment} (hjoin : join? tolerance f g = some h) :
    ∃ e l, (e = f ∧ l = g ∨ e = g ∧ l = f) ∧ tolerance.admits e.last l.first = true ∧
      ∃ a, e.answer.join l.answer = .ok a ∧ h = ⟨e.first, later e.last l.last, a⟩ := by
  unfold join? at hjoin
  simp only at hjoin
  split at hjoin
  · rename_i hadmits
    split at hjoin
    · rename_i a ha
      cases hjoin
      exact ⟨f, g, .inl ⟨rfl, rfl⟩, hadmits, a, ha, rfl⟩
    · cases hjoin
  · split at hjoin
    · rename_i hadmits
      split at hjoin
      · rename_i a ha
        cases hjoin
        exact ⟨g, f, .inr ⟨rfl, rfl⟩, hadmits, a, ha, rfl⟩
      · cases hjoin
    · cases hjoin

/-- **What joining two fragments preserves, joining any number of them does.** -/
theorem forall_joinFrom {P : Fragment → Prop} (hstep : ∀ f g h, P f → P g → join? tolerance f g = some h → P h) :
    ∀ {fs : List Fragment} {f : Fragment}, P f → (∀ g ∈ fs, P g) → ∀ a ∈ joinFrom tolerance f fs, ∃ g, P g ∧ g.answer = a
  | [], f, hf, _ => List.forall_mem_singleton.2 ⟨f, hf, rfl⟩
  | g :: gs, f, hf, hgs => by
    obtain ⟨hg, hgs⟩ := List.forall_mem_cons.1 hgs
    unfold joinFrom
    split
    · rename_i h hjoin
      exact forall_joinFrom hstep (hstep f g h hf hg hjoin) hgs
    · exact List.forall_mem_cons.2 ⟨⟨f, hf, rfl⟩, forall_joinFrom hstep hg hgs⟩

theorem forall_joinAll {P : Fragment → Prop} (hstep : ∀ f g h, P f → P g → join? tolerance f g = some h → P h)
    {fragments : List Fragment} (h : ∀ f ∈ fragments, P f) : ∀ a ∈ joinAll tolerance fragments, ∃ g, P g ∧ g.answer = a := by
  have hsorted : ∀ f ∈ (fragments.filter fun f => !f.answer.isEmpty).mergeSort isBefore, P f :=
    fun f hf => h f (List.mem_of_mem_filter (List.mem_mergeSort.1 hf))
  unfold joinAll
  split
  · exact List.forall_mem_nil _
  · rename_i f fs heq
    rw [heq] at hsorted
    obtain ⟨hf, hfs⟩ := List.forall_mem_cons.1 hsorted
    exact forall_joinFrom hstep hf hfs

/-- **Two slices, of which the second follows, join to one** exactly when the tolerance admits the gap. -/
theorem join?_slices (h : a.Aligned) {f g : Fragment} (hf : f.IsSliceOf a) (hg : g.IsSliceOf a)
    (hfg : f.Precedes g) (hgap : ∀ n, a.Holds n → n ≤ f.last ∨ g.first ≤ n) :
    join? tolerance f g = if tolerance.admits f.last g.first then some ⟨f.first, g.last, a.slice f.first g.last⟩
      else none := by
  have hfw := hf.window
  have hgw := hg.window
  have hfg' := hfg
  simp only [Precedes, Int64.lt_iff_toInt_lt, Int64.le_iff_toInt_le] at hfw hgw hfg'
  have hfirst : f.first ≤ g.first := Int64.le_iff_toInt_le.2 (by omega)
  have hlast : f.last ≤ g.last := Int64.le_iff_toInt_le.2 (by omega)
  have hlt : f.last < g.last := Int64.lt_iff_toInt_lt.2 (by omega)
  have hjoin : f.answer.join g.answer = .ok (a.slice f.first g.last) := by
    rw [hf.answer, hg.answer]
    exact Answer.join_slice h hfirst hlast hfg hgap
  have hback : tolerance.admits g.last f.first = false := admits_eq_false (Int64.lt_iff_toInt_lt.2 (by omega))
  rw [join?]
  simp [hjoin, hback, later, if_pos hlt]

/-! ## Joining a row of them -/

/-- Slices of an answer one after another, over windows that hold every row of it from a first to a last instant. -/
structure Tiles (a : Answer) (first last : Int64) (fs : List Fragment) : Prop where
  slices : ∀ f ∈ fs, f.IsSliceOf a
  apart : fs.Pairwise Precedes
  inside : ∀ f ∈ fs, first ≤ f.first ∧ f.last ≤ last
  cover : ∀ n, a.Holds n → first ≤ n → n ≤ last → ∃ f ∈ fs, f.first ≤ n ∧ n ≤ f.last

namespace Tiles

variable {first last : Int64} {f g : Fragment} {fs gs : List Fragment}

/-- No row stands between two neighbours. -/
theorem gap (h : Tiles a first last (f :: g :: gs)) {n : Int64} (hn : a.Holds n) : n ≤ f.last ∨ g.first ≤ n := by
  have hf := h.slices f List.mem_cons_self
  have hg := h.slices g (List.mem_cons_of_mem f List.mem_cons_self)
  have hgs := (List.pairwise_cons.1 (List.pairwise_cons.1 h.apart).2).1
  have hfirst := (h.inside f List.mem_cons_self).1
  have hlast := (h.inside g (List.mem_cons_of_mem f List.mem_cons_self)).2
  have hcover := h.cover n hn
  have hfw := hf.window
  have hgw := hg.window
  simp only [Int64.le_iff_toInt_le] at *
  by_cases hle : n.toInt ≤ f.last.toInt
  · exact .inl hle
  refine .inr (Decidable.byContradiction fun hlt => ?_)
  obtain ⟨k, hk, hkn⟩ := hcover (by omega) (by omega)
  rcases List.mem_cons.1 hk with rfl | hk
  · omega
  rcases List.mem_cons.1 hk with rfl | hk
  · omega
  · have := Int64.lt_iff_toInt_lt.1 (hgs k hk)
    omega

/-- The slice over the windows of two neighbours stands in place of both. -/
theorem joined (h : Tiles a first last (f :: g :: gs)) :
    Tiles a first last (⟨f.first, g.last, a.slice f.first g.last⟩ :: gs) := by
  have hrest : ∀ k ∈ gs, k ∈ f :: g :: gs := fun k hk => List.mem_cons_of_mem f (List.mem_cons_of_mem g hk)
  have hmemg : g ∈ f :: g :: gs := List.mem_cons_of_mem f List.mem_cons_self
  obtain ⟨hf, hgs⟩ := List.pairwise_cons.1 h.apart
  obtain ⟨hg, hgs⟩ := List.pairwise_cons.1 hgs
  have hfg : f.last < g.first := hf g List.mem_cons_self
  have hfw := (h.slices f List.mem_cons_self).window
  have hgw := (h.slices g hmemg).window
  have hbefore : f.last ≤ g.last := Int64.le_trans (Int64.le_of_lt hfg) hgw
  have hbehind : f.first ≤ g.first := Int64.le_trans hfw (Int64.le_of_lt hfg)
  constructor
  · exact List.forall_mem_cons.2 ⟨⟨Int64.le_trans hfw hbefore, rfl⟩, fun k hk => h.slices k (hrest k hk)⟩
  · exact List.pairwise_cons.2 ⟨hg, hgs⟩
  · exact List.forall_mem_cons.2 ⟨⟨(h.inside f List.mem_cons_self).1, (h.inside g hmemg).2⟩,
      fun k hk => h.inside k (hrest k hk)⟩
  · intro n hn hle hge
    obtain ⟨k, hk, hkn⟩ := h.cover n hn hle hge
    rcases List.mem_cons.1 hk with rfl | hk
    · exact ⟨_, List.mem_cons_self, hkn.1, Int64.le_trans hkn.2 hbefore⟩
    rcases List.mem_cons.1 hk with rfl | hk
    · exact ⟨_, List.mem_cons_self, Int64.le_trans hbehind hkn.1, hkn.2⟩
    · exact ⟨k, List.mem_cons_of_mem _ hk, hkn⟩

theorem slice_eq (h : Tiles a first last [f]) : f.answer = a.slice first last := by
  obtain ⟨hfirst, hlast⟩ := h.inside f List.mem_cons_self
  rw [(h.slices f List.mem_cons_self).answer]
  refine Answer.slice_congr fun n hn => ⟨fun ⟨hle, hge⟩ => ?_, fun ⟨hle, hge⟩ => ?_⟩
  · exact ⟨Int64.le_trans hfirst hle, Int64.le_trans hge hlast⟩
  · obtain ⟨g, hg, hwithin⟩ := h.cover n hn hle hge
    rw [List.mem_singleton.1 hg] at hwithin
    exact hwithin

/-- **Slices one after another come to the slice around them** when the tolerance admits every gap, and to more
than one answer when it does not. -/
theorem joinFrom_eq (tolerance : Tolerance) (haligned : a.Aligned) : ∀ {fs : List Fragment} {f : Fragment}, Tiles a first last (f :: fs) →
    ((f :: fs).IsChain fun f g => tolerance.admits f.last g.first = true) ∧
        joinFrom tolerance f fs = [a.slice first last] ∨
      (¬ (f :: fs).IsChain fun f g => tolerance.admits f.last g.first = true) ∧
        ∀ b, joinFrom tolerance f fs ≠ [b]
  | [], f, h => .inl ⟨.singleton f, by rw [joinFrom, h.slice_eq]⟩
  | g :: gs, f, h => by
    have hjoin := @join?_slices a tolerance haligned f g (h.slices f List.mem_cons_self)
      (h.slices g (List.mem_cons_of_mem f List.mem_cons_self))
      ((List.pairwise_cons.1 h.apart).1 g List.mem_cons_self) fun n hn => h.gap hn
    rw [joinFrom, hjoin, List.isChain_cons_cons]
    by_cases hadmits : tolerance.admits f.last g.first = true
    · -- The next gap is measured from the end of `g`, with or without `f` in front of it.
      have hchain : (g :: gs).IsChain (fun f g => tolerance.admits f.last g.first = true) ↔
          ((⟨f.first, g.last, a.slice f.first g.last⟩ : Fragment) :: gs).IsChain
            fun f g => tolerance.admits f.last g.first = true := by
        cases gs with
        | nil => simp
        | cons k ks => simp [List.isChain_cons_cons]
      rw [if_pos hadmits, hchain]
      simpa [hadmits] using joinFrom_eq tolerance haligned h.joined
    · rw [if_neg hadmits]
      refine .inr ⟨fun hchain => hadmits hchain.1, fun b hb => ?_⟩
      exact joinFrom_ne_nil g gs (List.cons.inj hb).2

end Tiles

/-- Slices over windows that are apart and cover all instants from a first to a last one stand, sorted and
without the empty ones, one after another. -/
theorem tiles_of_slices {first last : Int64} {fragments : List Fragment} (hslice : ∀ f ∈ fragments, f.IsSliceOf a)
    (hapart : fragments.Pairwise fun f g => f.Precedes g ∨ g.Precedes f)
    (hinside : ∀ f ∈ fragments, first ≤ f.first ∧ f.last ≤ last)
    (hcover : ∀ n, first ≤ n → n ≤ last → ∃ f ∈ fragments, f.first ≤ n ∧ n ≤ f.last) :
    Tiles a first last ((fragments.filter fun f => !f.answer.isEmpty).mergeSort isBefore) := by
  have hmem {f : Fragment} : f ∈ (fragments.filter fun f => !f.answer.isEmpty).mergeSort isBefore ↔
      f ∈ fragments ∧ (!f.answer.isEmpty) = true := List.mem_mergeSort.trans List.mem_filter
  constructor
  · exact fun f hf => hslice f (hmem.1 hf).1
  · exact pairwise_precedes_sorted (fun f hf => (hslice f (List.mem_filter.1 hf).1).window) (hapart.filter _)
  · exact fun f hf => hinside f (hmem.1 hf).1
  · intro n hn hle hge
    obtain ⟨f, hf, hfn⟩ := hcover n hle hge
    refine ⟨f, hmem.2 ⟨hf, ?_⟩, hfn⟩
    rw [(hslice f hf).answer, Bool.not_eq_true', Bool.eq_false_iff, ne_eq, Answer.isEmpty_slice_iff]
    exact hn.slice hfn.1 hfn.2

/-- Where one fragment alone has rows, there is nothing to join. -/
theorem joinAll_of_filter {fragments : List Fragment} {f : Fragment}
    (h : fragments.filter (fun f => !f.answer.isEmpty) = [f]) : joinAll tolerance fragments = [f.answer] := by
  rw [joinAll.eq_def, h, List.mergeSort_singleton]
  rfl

/-- **Fragments of one answer joined**: over windows that are apart and cover all of its rows between the
first and the last of them, they come to the slice over that window, to nothing when that slice is empty,
or to more than one answer. -/
theorem joinAll_slices (h : a.Orderly) {first last : Int64} {fragments : List Fragment}
    (hslice : ∀ f ∈ fragments, f.IsSliceOf a)
    (hapart : fragments.Pairwise fun f g => f.Precedes g ∨ g.Precedes f)
    (hinside : ∀ f ∈ fragments, first ≤ f.first ∧ f.last ≤ last)
    (hcover : ∀ n, first ≤ n → n ≤ last → ∃ f ∈ fragments, f.first ≤ n ∧ n ≤ f.last) :
    (joinAll tolerance fragments = [] → a.slice first last = .empty) ∧
    ∀ b, joinAll tolerance fragments = [b] → b = a.slice first last := by
  have htiles := tiles_of_slices hslice hapart hinside hcover
  rw [joinAll.eq_def]
  cases hcases : (fragments.filter fun f => !f.answer.isEmpty).mergeSort isBefore with
  | nil =>
    rw [hcases] at htiles
    refine ⟨fun _ => Answer.slice_eq_empty h.error fun n hn hwithin => ?_, fun b hb => ?_⟩
    · obtain ⟨f, hf, -⟩ := htiles.cover n hn hwithin.1 hwithin.2
      cases hf
    · cases hb
  | cons f fs =>
    rw [hcases] at htiles
    refine ⟨fun hnil => absurd hnil (joinFrom_ne_nil f fs), fun b hb => ?_⟩
    rcases htiles.joinFrom_eq tolerance h.aligned with ⟨-, hjoin⟩ | ⟨-, hjoin⟩
    · exact (List.cons.inj (hb.symm.trans hjoin)).1
    · exact absurd hb (hjoin b)

end SeriesCache.Fragment
