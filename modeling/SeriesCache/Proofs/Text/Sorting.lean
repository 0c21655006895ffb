import SeriesCache.Proofs.Dict
import SeriesCache.Text.Sorting
/-!
# Sorting by text

Items with different texts have one order (`sortOn_eq_of_perm`).  Sorted items of which each is kept once
are the same items as before when their texts tell them apart (`mem_distinctOn`).
-/
namespace SeriesCache.Text

variable {α : Type} {key : α → Text}

/-! ## Sorting -/

theorem eq_of_key_eq {β : Type} {key : α → β} {items : List α} (h : items.Pairwise fun a b => key a ≠ key b) {a b : α}
    (ha : a ∈ items) (hb : b ∈ items) (heq : key a = key b) : a = b := by
  induction h with
  | nil => cases ha
  | cons hne _ ih =>
    rcases List.mem_cons.1 ha with rfl | ha' <;> rcases List.mem_cons.1 hb with rfl | hb'
    · rfl
    · exact absurd heq (hne b hb')
    · exact absurd heq.symm (hne a ha')
    · exact ih ha' hb'

theorem perm_sortOn (key : α → Text) (items : List α) : (sortOn key items).Perm items :=
  List.mergeSort_perm items _

theorem pairwise_sortOn (key : α → Text) (items : List α) :
    (sortOn key items).Pairwise fun a b => ¬ key b < key a := by
  have hle := @List.pairwise_mergeSort α (fun a b => !decide (key b < key a)) ?trans ?total items
  · exact hle.imp fun h => by simpa using h
  · intro a b c hab hbc
    simp only [Bool.not_eq_true', decide_eq_false_iff_not] at hab hbc ⊢
    exact List.not_lt.2 (List.le_trans (List.not_lt.1 hab) (List.not_lt.1 hbc))
  · intro a b
    simp only [Bool.or_eq_true, Bool.not_eq_true', decide_eq_false_iff_not]
    exact (Decidable.em (key b < key a)).elim (fun h => .inr fun h' => List.lt_irrefl _ (List.lt_trans h h'))
      .inl

/-- **Items in strictly ascending order are the sorted form of all their orders.** -/
theorem sortOn_eq_of_perm {items sorted : List α} (h : items.Perm sorted)
    (hsorted : sorted.Pairwise fun a b => key a < key b) : sortOn key items = sorted := by
  have hperm := (perm_sortOn key items).trans h
  have hle : sorted.Pairwise fun a b => ¬ key b < key a := hsorted.imp fun hlt hlt' =>
    List.lt_irrefl _ (List.lt_trans hlt hlt')
  refine hperm.eq_of_pairwise (fun a b ha hb hab hba => ?_) (pairwise_sortOn key items) hle
  have heq : key a = key b := List.le_antisymm (List.not_lt.1 hab) (List.not_lt.1 hba)
  have ha := hperm.mem_iff.1 ha
  exact eq_of_key_eq (hsorted.imp ne_of_lt) ha hb heq

/-- Items that are in order stay as they are. -/
theorem sortOn_eq_self {items : List α} (h : items.Pairwise fun a b => ¬ key b < key a) : sortOn key items = items :=
  List.mergeSort_of_pairwise (h.imp fun hle => by simpa using hle)

/-! ## Each once -/

theorem mem_of_mem_dropRepeatsOf {same : α → α → Bool} {a last : α} {items : List α}
    (h : a ∈ dropRepeatsOf same last items) : a ∈ items := by
  fun_induction dropRepeatsOf same last items with
  | case1 => exact h
  | case2 last b items _ ih => exact List.mem_cons_of_mem b (ih h)
  | case3 last b items _ ih =>
    rcases List.mem_cons.1 h with rfl | h
    · exact List.mem_cons_self
    · exact List.mem_cons_of_mem b (ih h)

/-- What is left out stands behind an item that is the same. -/
theorem mem_dropRepeatsOf {same : α → α → Bool} (hsame : ∀ a b, same a b = true → a = b) {a last : α}
    {items : List α} (h : a ∈ items) : a = last ∨ a ∈ dropRepeatsOf same last items := by
  fun_induction dropRepeatsOf same last items with
  | case1 => cases h
  | case2 last b items hb ih =>
    rcases List.mem_cons.1 h with rfl | h
    · exact .inl (hsame last a hb).symm
    · exact ih h
  | case3 last b items _ ih =>
    rcases List.mem_cons.1 h with rfl | h
    · exact .inr List.mem_cons_self
    · rcases ih h with rfl | h
      · exact .inr List.mem_cons_self
      · exact .inr (List.mem_cons_of_mem b h)

theorem mem_dropRepeats {same : α → α → Bool} (hsame : ∀ a b, same a b = true → a = b) {a : α} :
    ∀ {items : List α}, a ∈ dropRepeats same items ↔ a ∈ items
  | [] => Iff.rfl
  | b :: items => by
    rw [dropRepeats, List.mem_cons, List.mem_cons]
    constructor
    · exact fun h => h.imp_right mem_of_mem_dropRepeatsOf
    · rintro (rfl | h)
      · exact .inl rfl
      · exact mem_dropRepeatsOf hsame h

theorem distinctOn_nil (key : α → Text) : distinctOn key [] = [] := by
  rw [distinctOn, sortOn, List.mergeSort_nil]
  rfl

/-- **Nothing is lost** where different items have different texts. -/
theorem mem_distinctOn (hkey : ∀ a b, key a = key b → a = b) {a : α} {items : List α} :
    a ∈ distinctOn key items ↔ a ∈ items := by
  rw [distinctOn, mem_dropRepeats fun a b h => hkey a b (eq_of_beq h), (perm_sortOn key items).mem_iff]

/-- Items in order of which each is kept once ascend. -/
theorem pairwise_dropRepeatsOf {last : α} {items : List α} (h : (last :: items).Pairwise fun a b => ¬ key b < key a) :
    (last :: dropRepeatsOf (fun a b => key a == key b) last items).Pairwise fun a b => key a < key b := by
  fun_induction dropRepeatsOf (fun a b => key a == key b) last items with
  | case1 last => exact List.pairwise_singleton _ _
  | case2 last a items _ ih =>
    obtain ⟨hlast, hitems⟩ := List.pairwise_cons.1 h
    refine ih (List.pairwise_cons.2 ⟨fun b hb => hlast b (List.mem_cons_of_mem a hb), ?_⟩)
    exact (List.pairwise_cons.1 hitems).2
  | case3 last a items hne ih =>
    obtain ⟨hlast, hitems⟩ := List.pairwise_cons.1 h
    have hrest := ih hitems
    have hlt : key last < key a := by
      have hle := List.not_lt.1 (hlast a List.mem_cons_self)
      refine Decidable.byContradiction fun hnlt => hne ?_
      exact beq_iff_eq.2 (List.le_antisymm hle (List.not_lt.1 hnlt))
    refine List.pairwise_cons.2 ⟨fun b hb => ?_, hrest⟩
    rcases List.mem_cons.1 hb with rfl | hb
    · exact hlt
    · exact List.lt_trans hlt ((List.pairwise_cons.1 hrest).1 b hb)

theorem pairwise_distinctOn (key : α → Text) (items : List α) :
    (distinctOn key items).Pairwise fun a b => key a < key b := by
  have hsorted := pairwise_sortOn key items
  unfold distinctOn
  cases hcases : sortOn key items with
  | nil => exact .nil
  | cons a rest =>
    rw [hcases] at hsorted
    exact pairwise_dropRepeatsOf hsorted

/-- **Each once and in order depends on what there is alone**, not on how often or in which order it is listed. -/
theorem distinctOn_congr (hkey : ∀ a b, key a = key b → a = b) {items items' : List α}
    (h : ∀ a, a ∈ items ↔ a ∈ items') : distinctOn key items = distinctOn key items' := by
  have hitems := pairwise_distinctOn key items
  have hitems' := pairwise_distinctOn key items'
  have hnodup {l : List α} (hl : l.Pairwise fun a b => key a < key b) : l.Nodup :=
    List.Pairwise.imp (fun hlt heq => ne_of_lt hlt (congrArg key heq)) hl
  have hperm : (distinctOn key items).Perm (distinctOn key items') := by
    refine (List.perm_ext_iff_of_nodup (hnodup hitems) (hnodup hitems')).2 fun a => ?_
    rw [mem_distinctOn hkey, mem_distinctOn hkey, h]
  refine hperm.eq_of_pairwise (fun a b _ _ hab hba => ?_) hitems hitems'
  exact absurd (List.lt_trans hab hba) (List.lt_irrefl _)

end SeriesCache.Text
