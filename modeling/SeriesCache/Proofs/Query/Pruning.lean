import SeriesCache.Proofs.Query.Again.Select
import SeriesCache.Proofs.Query.Findings
/-!
# What pruning leaves

A condition is read back from its text exactly when it has the shape that reading gives (`Condition.reader_text_iff`).
A condition that was read has it, and what pruning leaves of one keeps it, so both stand without further parentheses
(`Condition.pruned_reads_back`).  What is left says what the condition said of the other names, when nothing was pruned
under an OR, and names may be pruned in any order (`Condition.without_faithful`).
-/
namespace SeriesCache

open Reader

namespace Condition

variable {name : Text} {c : Condition}

/-! ## Printed conditions -/

/-- **A condition is read back from its text exactly when it needs no more parentheses**, and its operands are read back
from theirs. -/
theorem reader_text_iff : reader c.text = .found c [] ↔ c.Fits Reads .disjunction := by
  constructor
  · intro h
    obtain ⟨-, -, hfits⟩ := reader_fits takes_comparison_reads _ _ _ h
    exact hfits
  · intro h
    have hagain := reader_again h [] end_nil
    rwa [List.append_nil] at hagain

/-- **A condition that was read is read back from its text**, and so is what pruning leaves of it. -/
theorem pruned_reads_back {q : Text} {s : Select} (hread : Select.read q = .ok s) (hc : s.condition = some c) :
    reader c.text = .found c [] ∧ ∀ name d, c.without name = some d → reader d.text = .found d [] := by
  have hfits : c.Fits Reads .disjunction := Select.fits_of_read hread c hc
  exact ⟨reader_text_iff.2 hfits, fun name d hd => reader_text_iff.2 (fits_without name hd hfits)⟩

/-! ## A condition with bounds at two depths -/

namespace Nested

def one : Comparison := ⟨"a".toList, .eq, ⟨"1".toList, .literal (.integer 1)⟩⟩

def low : Comparison := ⟨"b".toList, .lt, ⟨"2.50".toList, .literal (.float ⟨0x4004000000000000⟩)⟩⟩

def either : Condition := .group (.joined (.comparison one) .or (.comparison low))

/-- One bound is in capitals and in a group, the other one stands behind it. -/
def condition : Condition := .joined
  (.group (.joined (.comparison ⟨"TIME".toList, .ge, ⟨"0".toList, .literal (.integer 0)⟩⟩) .and either)) .and
  (.comparison ⟨"time".toList, .lt,
    ⟨"now()-1h".toList, .sum (.call "now".toList []) .minus (.literal (.duration ⟨3600000000000⟩))⟩⟩)

def statement : Select where
  fields := [⟨.name "v".toList none, none⟩]
  source := ⟨none, none, .name "m".toList⟩
  condition := some condition
  dimensions := []
  fill := none
  order := none
  limit := none
  offset := none
  seriesLimit := none
  seriesOffset := none
  zone := none

theorem read_statement :
    Select.read "SELECT v FROM m WHERE ( TIME>=0 AND (a=1 OR b<2.50) ) AND time<now()-1h".toList = .ok statement :=
  Outcome.eq_ok_of_toOption (by decide +kernel)

theorem without_condition : condition.without "time".toList = some (group either) := rfl

theorem not_isOn_of_underOr {x : Comparison} {role : Role} (h : .comparison x role true ∈ condition.nodes) :
    x.isOn "time".toList = false := by
  obtain ⟨rfl, -⟩ | ⟨rfl, -⟩ : (x = one ∧ role = .disjunct) ∨ (x = low ∧ role = .disjunct) := by
    simpa [nodes, nodesAt, condition, either, Role.ofConnective] using h
  · rfl
  · rfl

end Nested

theorem pruned_reads_back_nested : reader Nested.condition.text = .found Nested.condition [] ∧
    (group Nested.either).text = "((a = 1 OR b < 2.50))".toList ∧
    reader (group Nested.either).text = .found (group Nested.either) [] :=
  have hback := pruned_reads_back Nested.read_statement rfl
  ⟨hback.1, by decide +kernel, hback.2 "time".toList _ Nested.without_condition⟩

/-! ## What is left -/

theorem comparisons_ne_nil (c : Condition) : c.comparisons ≠ [] := by
  induction c with
  | comparison x => exact List.cons_ne_nil _ _
  | joined a op b iha ihb => exact List.append_ne_nil_of_left_ne_nil iha _
  | group a ih => exact ih

theorem join?_none (op : Connective) (a? : Option Condition) : join? op a? none = a? := by
  cases a? <;> rfl

/-- A condition that is not about the name is left as it is. -/
theorem without_eq_self (h : ∀ x ∈ c.comparisons, x.isOn name = false) : c.without name = some c := by
  induction c with
  | comparison x =>
    have hx : x.isOn name = false := h x List.mem_cons_self
    rw [without, hx]
    rfl
  | joined a op b iha ihb =>
    obtain ⟨ha, hb⟩ := List.forall_mem_append.1 h
    rw [without, iha ha, ihb hb]
    rfl
  | group a ih =>
    rw [without, ih h]
    rfl

/-- Nothing is left when all comparisons are on the name. -/
theorem without_eq_none_iff : c.without name = none ↔ ∀ x ∈ c.comparisons, x.isOn name = true := by
  have hcomparisons := comparisons_without name c
  constructor
  · intro h x hx
    rw [h] at hcomparisons
    simpa using List.filter_eq_nil_iff.1 hcomparisons.symm x hx
  · intro h
    cases hd : c.without name with
    | none => rfl
    | some d =>
      rw [hd, List.filter_eq_nil_iff.2 fun x hx => by simp [h x hx]] at hcomparisons
      exact absurd hcomparisons d.comparisons_ne_nil

/-- What is left of a join is pruned side by side. -/
theorem bind_without_join? (name : Text) (op : Connective) (a? b? : Option Condition) :
    (join? op a? b?).bind (without name) = join? op (a?.bind (without name)) (b?.bind (without name)) := by
  cases a? with
  | none => rfl
  | some a =>
    cases b? with
    | none => exact (join?_none op _).symm
    | some b => rfl

theorem without_comm (name other : Text) (c : Condition) :
    (c.without name).bind (without other) = (c.without other).bind (without name) := by
  induction c with
  | comparison x =>
    by_cases hname : x.isOn name = true
    · by_cases hother : x.isOn other = true <;> simp [without, hname, hother]
    · by_cases hother : x.isOn other = true <;> simp [without, hname, hother]
  | joined a op b iha ihb => rw [without, without, bind_without_join?, bind_without_join?, iha, ihb]
  | group a ih =>
    have hgroup (name : Text) (a? : Option Condition) :
        (a?.map group).bind (without name) = (a?.bind (without name)).map group := by
      cases a? <;> rfl
    rw [without, without, hgroup, hgroup, ih]

/-! ## What it says -/

/-- Under an OR every comparison is a node that is marked so. -/
theorem exists_mem_nodesAt {x : Comparison} (hx : x ∈ c.comparisons) (role : Role) :
    ∃ role', .comparison x role' true ∈ c.nodesAt role true := by
  induction c generalizing role with
  | comparison y =>
    obtain rfl := List.mem_singleton.1 hx
    exact ⟨role, List.mem_singleton_self _⟩
  | joined a op b iha ihb =>
    rcases List.mem_append.1 hx with hx | hx
    · obtain ⟨role', hnode⟩ := iha hx (.ofConnective op)
      exact ⟨role', List.mem_cons_of_mem _ (List.mem_append_left _ hnode)⟩
    · obtain ⟨role', hnode⟩ := ihb hx (.ofConnective op)
      exact ⟨role', List.mem_cons_of_mem _ (List.mem_append_right _ hnode)⟩
  | group a ih =>
    obtain ⟨role', hnode⟩ := ih hx role
    exact ⟨role', List.mem_cons_of_mem _ hnode⟩

theorem holds_join?_and (isTrue : Comparison → Bool) (a? b? : Option Condition) :
    (∀ d ∈ join? .and a? b?, d.holds isTrue = true) ↔
      (∀ d ∈ a?, d.holds isTrue = true) ∧ ∀ d ∈ b?, d.holds isTrue = true := by
  cases a? with
  | none => simp [join?]
  | some a => cases b? <;> simp [join?, holds]

/-- A condition that has the name under no OR is true when what is left is, and every comparison on the name.  Under an
OR nothing is pruned, so the two sides need not be compared there. -/
theorem holds_iff_without (isTrue : Comparison → Bool) {role : Role}
    (h : ∀ x role', .comparison x role' true ∈ c.nodesAt role false → x.isOn name = false) :
    c.holds isTrue = true ↔ (∀ d ∈ c.without name, d.holds isTrue = true) ∧
      ∀ x ∈ c.comparisons, x.isOn name = true → isTrue x = true := by
  induction c generalizing role with
  | comparison x =>
    rw [comparisons, List.forall_mem_singleton]
    by_cases hx : x.isOn name = true <;> simp [without, holds, hx]
  | joined a op b iha ihb =>
    cases op with
    | and =>
      have ha := iha fun x role' hx =>
        h x role' (List.mem_cons_of_mem _ (List.mem_append_left _ hx))
      have hb := ihb fun x role' hx =>
        h x role' (List.mem_cons_of_mem _ (List.mem_append_right _ hx))
      rw [holds, Bool.and_eq_true, ha, hb, without, holds_join?_and, comparisons, List.forall_mem_append,
        and_and_and_comm]
    | or =>
      have hother : ∀ x ∈ (joined a .or b).comparisons, x.isOn name = false := fun x hx => by
        obtain ⟨role', hnode⟩ := exists_mem_nodesAt hx role
        exact h x role' hnode
      have hnone : ∀ x ∈ (joined a .or b).comparisons, x.isOn name = true → isTrue x = true := fun x hx hname => by
        rw [hother x hx] at hname
        cases hname
      rw [without_eq_self hother, and_iff_left hnone]
      simp
  | group a ih =>
    have ha := ih fun x role' hx => h x role' (List.mem_cons_of_mem _ hx)
    rw [holds, ha, without, comparisons]
    simp [holds]

/-- **Pruning leaves the comparisons on other names, in order.**  When it prunes nothing under an OR, the condition is
true exactly when what is left is and all that was pruned; and of two names either may be pruned first. -/
theorem without_faithful (name : Text) (c : Condition) :
    (c.without name).elim [] comparisons = (c.comparisons.filter fun x => !x.isOn name) ∧
      ((∀ x role, .comparison x role true ∈ c.nodes → x.isOn name = false) → ∀ isTrue : Comparison → Bool,
        (c.holds isTrue = true ↔ (∀ d ∈ c.without name, d.holds isTrue = true) ∧
          ∀ x ∈ c.comparisons, x.isOn name = true → isTrue x = true)) ∧
        ∀ other, (c.without name).bind (without other) = (c.without other).bind (without name) :=
  ⟨comparisons_without name c, fun h isTrue => holds_iff_without isTrue h, fun other => without_comm name other c⟩

theorem without_faithful_nested : ∀ isTrue : Comparison → Bool, Nested.condition.holds isTrue = true ↔
    (∀ d ∈ Nested.condition.without "time".toList, d.holds isTrue = true) ∧
      ∀ x ∈ Nested.condition.comparisons, x.isOn "time".toList = true → isTrue x = true :=
  (without_faithful "time".toList Nested.condition).2.1 fun _ _ => Nested.not_isOn_of_underOr

end Condition
end SeriesCache
