import SeriesCache.Proofs.Number.Signed
import SeriesCache.Proofs.Series.Fragments
/-!
# An answer cut into pieces and joined again

Cut points split an answer into the slices between neighbouring points (`Fragment.pieces`).  In whatever order
the pieces are given, they join to the answer between the first and the last point, as soon as the tolerance is
as wide as every gap between pieces with rows (`Fragment.joinAll_pieces`).
-/
namespace SeriesCache.Fragment

/-! ## Pieces -/

/-- The slices of an answer between neighbouring cut points, each up to the instant before its second point. -/
def pieces (a : Answer) : List Int64 → List Fragment
  | first :: next :: cuts => ⟨first, next - 1, a.slice first (next - 1)⟩ :: pieces a (next :: cuts)
  | _ => []

variable {a : Answer}

theorem isSliceOf_of_mem_pieces : ∀ {cuts : List Int64}, cuts.Pairwise (· < ·) → ∀ f ∈ pieces a cuts, f.IsSliceOf a
  | [], _, f, hf => by cases hf
  | [_], _, f, hf => by cases hf
  | first :: next :: cuts, h, f, hf => by
    obtain ⟨hfirst, hcuts⟩ := List.pairwise_cons.1 h
    have hlt : first < next := hfirst next List.mem_cons_self
    rcases List.mem_cons.1 hf with rfl | hf
    · refine ⟨?_, rfl⟩
      change first ≤ next - 1
      have hint := Int64.lt_iff_toInt_lt.1 hlt
      rw [Int64.le_iff_toInt_le, Signed.toInt_pred hlt]
      omega
    · exact isSliceOf_of_mem_pieces hcuts f hf

theorem next_le_last {next last : Int64} {cuts : List Int64} (h : (next :: cuts).Pairwise (· < ·))
    (hlast : (next :: cuts).getLast? = some last) : next ≤ last := by
  rcases List.mem_cons.1 (List.mem_of_getLast? hlast) with rfl | hmem
  · exact Int64.le_refl _
  · exact Int64.le_of_lt ((List.pairwise_cons.1 h).1 last hmem)

/-- The pieces lie between the first cut point and the last. -/
theorem inside_of_mem_pieces : ∀ {first next last : Int64} {cuts : List Int64},
    (first :: next :: cuts).Pairwise (· < ·) → (next :: cuts).getLast? = some last →
    ∀ f ∈ pieces a (first :: next :: cuts), first ≤ f.first ∧ f.last ≤ last - 1
  | first, next, last, cuts, h, hlast, f, hf => by
    obtain ⟨hfirst, hcuts⟩ := List.pairwise_cons.1 h
    have hlt : first < next := hfirst next List.mem_cons_self
    have hle := next_le_last hcuts hlast
    have hlt' : first < last := Int64.lt_of_lt_of_le hlt hle
    rcases List.mem_cons.1 hf with rfl | hf
    · refine ⟨Int64.le_refl _, ?_⟩
      rw [Int64.le_iff_toInt_le, Signed.toInt_pred hlt, Signed.toInt_pred hlt']
      have := Int64.le_iff_toInt_le.1 hle
      omega
    · cases cuts with
      | nil => cases hf
      | cons k cuts =>
        rw [List.getLast?_cons_cons] at hlast
        obtain ⟨hnext, hlast⟩ := inside_of_mem_pieces hcuts hlast f hf
        exact ⟨Int64.le_trans (Int64.le_of_lt hlt) hnext, hlast⟩

theorem pairwise_precedes_pieces : ∀ {cuts : List Int64}, cuts.Pairwise (· < ·) → (pieces a cuts).Pairwise Precedes
  | [], _ => .nil
  | [_], _ => .nil
  | [first, next], _ => List.pairwise_singleton _ _
  | first :: next :: k :: cuts, h => by
    obtain ⟨hfirst, hcuts⟩ := List.pairwise_cons.1 h
    have hlt : first < next := hfirst next List.mem_cons_self
    refine List.pairwise_cons.2 ⟨fun f hf => ?_, pairwise_precedes_pieces hcuts⟩
    have hlast := List.getLast?_eq_some_getLast (List.cons_ne_nil k cuts)
    have hle := Int64.le_iff_toInt_le.1 (inside_of_mem_pieces hcuts hlast f hf).1
    change next - 1 < f.first
    rw [Int64.lt_iff_toInt_lt, Signed.toInt_pred hlt]
    omega

/-- Every instant between the first cut point and the last lies in a piece. -/
theorem exists_mem_pieces : ∀ {first next last n : Int64} {cuts : List Int64},
    (first :: next :: cuts).Pairwise (· < ·) → (next :: cuts).getLast? = some last → first ≤ n → n ≤ last - 1 →
    ∃ f ∈ pieces a (first :: next :: cuts), f.first ≤ n ∧ n ≤ f.last
  | first, next, last, n, cuts, h, hlast, hle, hge => by
    obtain ⟨hfirst, hcuts⟩ := List.pairwise_cons.1 h
    have hlt : first < next := hfirst next List.mem_cons_self
    by_cases hn : n ≤ next - 1
    · exact ⟨_, List.mem_cons_self, hle, hn⟩
    · have hnext : next ≤ n := by
        rw [Int64.le_iff_toInt_le, Signed.toInt_pred hlt] at hn
        rw [Int64.le_iff_toInt_le]
        omega
      cases cuts with
      | nil =>
        cases hlast
        exact absurd hge hn
      | cons k cuts =>
        rw [List.getLast?_cons_cons] at hlast
        obtain ⟨f, hf, hfn⟩ := exists_mem_pieces hcuts hlast hnext hge
        exact ⟨f, List.mem_cons_of_mem _ hf, hfn⟩

/-! ## Joined again -/

/-- **Fragments in the order of their windows are the sorted form of all their orders.** -/
theorem sorted_eq_of_perm {fragments sorted : List Fragment} (hperm : fragments.Perm sorted)
    (hwindow : ∀ f ∈ sorted, f.first ≤ f.last) (hsorted : sorted.Pairwise Precedes) :
    fragments.mergeSort isBefore = sorted := by
  have hapart : fragments.Pairwise fun f g => f.Precedes g ∨ g.Precedes f :=
    hperm.symm.pairwise (hsorted.imp .inl) Or.symm
  have hprecedes := pairwise_precedes_sorted (fun f hf => hwindow f (hperm.mem_iff.1 hf)) hapart
  refine ((List.mergeSort_perm fragments isBefore).trans hperm).eq_of_pairwise ?_ hprecedes hsorted
  intro f g hf hg hfg hgf
  -- No two windows stand in front of each other, since none ends before it starts.
  have hfw := hwindow f (((List.mergeSort_perm fragments isBefore).trans hperm).mem_iff.1 hf)
  have hgw := hwindow g hg
  simp only [Precedes, Int64.lt_iff_toInt_lt, Int64.le_iff_toInt_le] at hfg hgf hfw hgw
  omega

theorem admits_of_gap {tolerance : Tolerance} {f g : Fragment} (h : f.Precedes g)
    (hgap : g.first.toInt - f.last.toInt ≤ tolerance.nanos.toInt) : tolerance.admits f.last g.first = true :=
  admits_iff.2 ⟨Int64.le_of_lt h, hgap⟩

theorem chain_admits {tolerance : Tolerance} : ∀ {fs : List Fragment}, fs.Pairwise Precedes →
    (fs.IsChain fun f g => g.first.toInt - f.last.toInt ≤ tolerance.nanos.toInt) →
    fs.IsChain fun f g => tolerance.admits f.last g.first = true
  | [], _, _ => .nil
  | [f], _, _ => .singleton f
  | f :: g :: gs, hapart, hgap => by
    obtain ⟨hf, hapart⟩ := List.pairwise_cons.1 hapart
    obtain ⟨hfg, hgap⟩ := List.isChain_cons_cons.1 hgap
    exact .cons_cons (admits_of_gap (hf g List.mem_cons_self) hfg) (chain_admits hapart hgap)

theorem window_of_mem_pieces {cuts : List Int64} (hcuts : cuts.Pairwise (· < ·)) :
    ∀ f ∈ (pieces a cuts).filter fun f => !f.answer.isEmpty, f.first ≤ f.last :=
  fun f hf => (isSliceOf_of_mem_pieces hcuts f (List.mem_filter.1 hf).1).window

/-- The pieces with rows tile the window from the first cut point to the last. -/
theorem tiles_pieces {first next last : Int64} {cuts : List Int64} (hcuts : (first :: next :: cuts).Pairwise (· < ·))
    (hlast : (next :: cuts).getLast? = some last) :
    Tiles a first (last - 1) ((pieces a (first :: next :: cuts)).filter fun f => !f.answer.isEmpty) := by
  have hprecedes := pairwise_precedes_pieces (a := a) hcuts
  have htiles := tiles_of_slices (isSliceOf_of_mem_pieces (a := a) hcuts) (hprecedes.imp .inl)
    (inside_of_mem_pieces hcuts hlast) fun n => exists_mem_pieces hcuts hlast
  rwa [sorted_eq_of_perm (List.Perm.refl _) (window_of_mem_pieces hcuts) (hprecedes.filter _)] at htiles

/-- A window that is tiled by slices with rows has rows when there is a slice. -/
theorem Tiles.isEmpty_slice {first last : Int64} : ∀ {fs : List Fragment}, Tiles a first last fs →
    (∀ f ∈ fs, f.answer.isEmpty = false) → (a.slice first last).isEmpty = fs.isEmpty
  | [], h, _ => by
    refine Answer.isEmpty_slice_iff.2 (Answer.tables_slice_eq_nil fun n hn hwithin => ?_)
    obtain ⟨f, hf, -⟩ := h.cover n hn hwithin.1 hwithin.2
    cases hf
  | f :: fs, h, hrows => by
    obtain ⟨hfirst, hlast⟩ := h.inside f List.mem_cons_self
    have hf := hrows f List.mem_cons_self
    rw [(h.slices f List.mem_cons_self).answer, Bool.eq_false_iff, ne_eq, Answer.isEmpty_slice_iff] at hf
    rw [List.isEmpty_cons, Bool.eq_false_iff, ne_eq, Answer.isEmpty_slice_iff]
    intro hnone
    refine hf (Answer.tables_slice_eq_nil fun n hn hwithin => ?_)
    exact hn.slice (Int64.le_trans hfirst hwithin.1) (Int64.le_trans hwithin.2 hlast) hnone

/-- **An answer cut into pieces is reassembled from them in any order.**  Let the answer be cut at ascending
points, and let the tolerance be at least the gap between any two neighbours among the pieces with rows.  Then all
orders of the pieces join to the one answer between the first point and the last, or to none when that has no
rows. -/
theorem joinAll_pieces (h : a.Aligned) {first next last : Int64} {cuts : List Int64}
    (hcuts : (first :: next :: cuts).Pairwise (· < ·)) (hlast : (next :: cuts).getLast? = some last)
    {tolerance : Tolerance}
    (hgap : ((pieces a (first :: next :: cuts)).filter fun f => !f.answer.isEmpty).IsChain
      fun f g => g.first.toInt - f.last.toInt ≤ tolerance.nanos.toInt)
    {fragments : List Fragment} (hperm : fragments.Perm (pieces a (first :: next :: cuts))) :
    joinAll tolerance fragments =
      if (a.slice first (last - 1)).isEmpty then [] else [a.slice first (last - 1)] := by
  have hprecedes := pairwise_precedes_pieces (a := a) hcuts
  have hsorted : (fragments.filter fun f => !f.answer.isEmpty).mergeSort isBefore =
      (pieces a (first :: next :: cuts)).filter fun f => !f.answer.isEmpty :=
    sorted_eq_of_perm (hperm.filter _) (window_of_mem_pieces hcuts) (hprecedes.filter _)
  have htiles : Tiles a first (last - 1) _ := tiles_pieces hcuts hlast
  have hempty := htiles.isEmpty_slice fun f hf => by simpa using (List.mem_filter.1 hf).2
  have hkept := hprecedes.filter fun f => !f.answer.isEmpty
  rw [joinAll.eq_def, hsorted, hempty]
  cases hpieces : (pieces a (first :: next :: cuts)).filter fun f => !f.answer.isEmpty with
  | nil => rfl
  | cons f fs =>
    rw [hpieces] at htiles hgap hkept
    rcases htiles.joinFrom_eq tolerance h with ⟨-, hjoin⟩ | ⟨hchain, -⟩
    · exact hjoin
    · exact absurd (chain_admits hkept hgap) hchain

/-- The values of two hosts, of which one reports only once, and an error. -/
def hosts : Answer where
  tables := [
    ⟨"m".toList, Dict.empty.insert "host".toList "a".toList, ["time".toList, "v".toList],
      [[.int64 1, .int64 7], [.int64 12, .null], [.int64 12, .int64 8], [.int64 25, .int64 9]]⟩,
    ⟨"m".toList, Dict.empty.insert "host".toList "b".toList, ["time".toList, "v".toList],
      [[.int64 14, .string "x".toList]]⟩]
  error := some "partial".toList

theorem aligned_hosts : hosts.Aligned where
  ascending := by decide
  name := by decide
  columns := by decide
  tagged := .inr (by decide)
  timely := by
    refine List.forall_mem_cons.2 ⟨Table.timely_of_instants [1, 12, 12, 25] rfl (by decide), ?_⟩
    exact List.forall_mem_cons.2 ⟨Table.timely_of_instants [14] rfl (by decide), List.forall_mem_nil _⟩

/-- The piece from 15 to 19 has no rows, and its neighbours join over the gap of six. -/
theorem joinAll_pieces_hosts :
    joinAll ⟨6⟩ (pieces hosts [0, 10, 15, 20, 30]).reverse = [hosts.slice 0 29] :=
  joinAll_pieces aligned_hosts (by decide) rfl (by decide +kernel) (List.reverse_perm _)

end SeriesCache.Fragment
