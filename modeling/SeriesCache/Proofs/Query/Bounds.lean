import SeriesCache.Proofs.Number.Signed
import SeriesCache.Proofs.Query.Findings
/-!
# Windows and the comparisons that bound them

A comparison of time either says nothing else than the bounds it sets, or more than bounds can say
(`Operator.Bounds`).  The window of a request has every instant at which all its comparisons of time are true
(`Request.contains_of_holds`), and has no other exactly when those that say more are true throughout it
(`Request.window_exact_iff`).
-/
namespace SeriesCache

variable {similar : Int64 → Int64 → Prop}

/-! ## Truth -/

/-- Whether two instants compare so.  What it means for instants to match is left open. -/
def Operator.Holds (similar : Int64 → Int64 → Prop) (t u : Int64) : Operator → Prop
  | .eq => t = u
  | .ne => t ≠ u
  | .matching => similar t u
  | .notMatching => ¬ similar t u
  | .lt => t < u
  | .le => t ≤ u
  | .gt => u < t
  | .ge => u ≤ t

/-- A comparison with the instant is the same as the bounds it sets. -/
def Operator.Bounds (u : Int64) : Operator → Prop
  | .eq | .le | .ge => True
  | .lt => Int64.minValue < u
  | .gt => u < Int64.maxValue
  | .ne | .matching | .notMatching => False

namespace Comparison

/-- Whether the comparison is true of an instant: its right side is an instant to compare with. -/
def HoldsAt (similar : Int64 → Int64 → Prop) (now t : Int64) (c : Comparison) : Prop :=
  ∃ u, c.operand.expr.instant? now = some u ∧ c.operator.Holds similar t u

def IsBound (now : Int64) (c : Comparison) : Prop :=
  ∃ u, c.operand.expr.instant? now = some u ∧ c.operator.Bounds u

end Comparison

/-! ## Windows -/

namespace Window

theorem contains_unbounded (t : Int64) : unbounded.Contains t := by
  simp [unbounded, Contains]

theorem contains_restrictFirst {w : Window} {a t : Int64} :
    (w.restrictFirst a).Contains t ↔ w.Contains t ∧ a ≤ t := by
  unfold restrictFirst Contains
  cases w.first with
  | none => simp [and_comm]
  | some b =>
    have hmax : (if b < a then a else b) ≤ t ↔ b ≤ t ∧ a ≤ t := by
      simp only [Int64.lt_iff_toInt_lt, Int64.le_iff_toInt_le]
      split <;> omega
    simp only [Option.mem_def, Option.some.injEq, forall_eq', hmax]
    exact and_right_comm

theorem contains_restrictLast {w : Window} {b t : Int64} :
    (w.restrictLast b).Contains t ↔ w.Contains t ∧ t ≤ b := by
  unfold restrictLast Contains
  cases w.last with
  | none => simp
  | some c =>
    have hmin : t ≤ (if b < c then b else c) ↔ t ≤ c ∧ t ≤ b := by
      simp only [Int64.lt_iff_toInt_lt, Int64.le_iff_toInt_le]
      split <;> omega
    simp only [Option.mem_def, Option.some.injEq, forall_eq', hmin]
    exact and_assoc.symm

theorem contains_of_restrict {w : Window} {op : Operator} {u t : Int64} (h : (w.restrict op u).Contains t) :
    w.Contains t := by
  cases op with
  | eq => exact (contains_restrictFirst.1 (contains_restrictLast.1 h).1).1
  | ne => exact h
  | matching => exact h
  | notMatching => exact h
  | lt => exact (contains_restrictLast.1 h).1
  | le => exact (contains_restrictLast.1 h).1
  | gt => exact (contains_restrictFirst.1 h).1
  | ge => exact (contains_restrictFirst.1 h).1

/-- A restriction keeps the instants of which the comparison is true. -/
theorem contains_restrict {w : Window} {op : Operator} {u t : Int64} (hw : w.Contains t)
    (h : op.Holds similar t u) : (w.restrict op u).Contains t := by
  cases op with
  | eq =>
    obtain rfl : t = u := h
    exact contains_restrictLast.2 ⟨contains_restrictFirst.2 ⟨hw, Int64.le_refl t⟩, Int64.le_refl t⟩
  | ne => exact hw
  | matching => exact hw
  | notMatching => exact hw
  | lt => exact contains_restrictLast.2 ⟨hw, Signed.le_prev_of_lt h⟩
  | le => exact contains_restrictLast.2 ⟨hw, h⟩
  | gt => exact contains_restrictFirst.2 ⟨hw, Signed.next_le_of_lt h⟩
  | ge => exact contains_restrictFirst.2 ⟨hw, h⟩

/-- It keeps no other when the comparison is the same as the bounds it sets. -/
theorem holds_of_contains_restrict {w : Window} {op : Operator} {u t : Int64} (hbounds : op.Bounds u)
    (h : (w.restrict op u).Contains t) : op.Holds similar t u := by
  cases op with
  | eq =>
    obtain ⟨hfirst, hlast⟩ := contains_restrictLast.1 h
    exact Int64.le_antisymm hlast (contains_restrictFirst.1 hfirst).2
  | ne => cases hbounds
  | matching => cases hbounds
  | notMatching => cases hbounds
  | lt => exact (Signed.le_prev_iff hbounds).1 (contains_restrictLast.1 h).2
  | le => exact (contains_restrictLast.1 h).2
  | gt => exact (Signed.next_le_iff hbounds).1 (contains_restrictFirst.1 h).2
  | ge => exact (contains_restrictFirst.1 h).2

/-- The window that is left by one restriction after another. -/
def restrictAll (w : Window) (bounds : List (Operator × Int64)) : Window :=
  bounds.foldl (fun w b => w.restrict b.1 b.2) w

theorem contains_of_restrictAll {t : Int64} : ∀ {bounds : List (Operator × Int64)} {w : Window},
    (w.restrictAll bounds).Contains t → w.Contains t
  | [], _, h => h
  | _ :: _, _, h => contains_of_restrict (contains_of_restrictAll h)

theorem contains_restrictAll {t : Int64} : ∀ {bounds : List (Operator × Int64)} {w : Window}, w.Contains t →
    (∀ b ∈ bounds, b.1.Holds similar t b.2) → (w.restrictAll bounds).Contains t
  | [], _, hw, _ => hw
  | b :: bs, w, hw, h => by
    obtain ⟨hb, hbs⟩ := List.forall_mem_cons.1 h
    show ((w.restrict b.1 b.2).restrictAll bs).Contains t
    exact contains_restrictAll (contains_restrict hw hb) hbs

theorem holds_of_contains_restrictAll {t : Int64} : ∀ {bounds : List (Operator × Int64)} {w : Window},
    (w.restrictAll bounds).Contains t → ∀ b ∈ bounds, b.1.Bounds b.2 → b.1.Holds similar t b.2
  | [], _, _, b, hb, _ => by cases hb
  | b :: bs, w, h, b', hb', hbounds => by
    replace h : ((w.restrict b.1 b.2).restrictAll bs).Contains t := h
    rcases List.mem_cons.1 hb' with rfl | hb'
    · exact holds_of_contains_restrict hbounds (contains_of_restrictAll h)
    · exact holds_of_contains_restrictAll h b' hb' hbounds

theorem contains_iff_of_bounds? {w : Window} {first last : Int64} (h : w.bounds? = some (first, last)) (t : Int64) :
    w.Contains t ↔ first ≤ t ∧ t ≤ last := by
  obtain ⟨wfirst, wlast⟩ := w
  cases wfirst with
  | none => cases h
  | some a =>
    cases wlast with
    | none => cases h
    | some b =>
      cases h
      simp [Contains]

end Window

/-! ## Requests -/

namespace Request

section

variable {context : Context} {q : Text} {r : Request} {t : Int64}

/-- The window of a request is what its comparisons on time leave, each of which has an instant. -/
theorem window_of_read (hread : read context q = .ok r) :
    (∀ c ∈ r.statement.comparisons, c.IsTimed context.now) ∧
      r.window = Window.unbounded.restrictAll
        (r.statement.comparisons.filterMap (Comparison.bound? context.now)) := by
  obtain ⟨-, s, m, f, -, -, hf, rfl⟩ := read_eq_ok_iff.1 hread
  have htells := Findings.tells_of_ofCondition? hf
  exact ⟨htells.timed, htells.window⟩

theorem mem_bounds {cs : List Comparison} {now : Int64} {b : Operator × Int64} :
    b ∈ cs.filterMap (Comparison.bound? now) ↔
      ∃ c ∈ cs, c.isOnTime = true ∧ c.operand.expr.instant? now = some b.2 ∧ c.operator = b.1 := by
  rw [List.mem_filterMap]
  refine exists_congr fun c => and_congr_right fun _ => ?_
  unfold Comparison.bound?
  by_cases htime : c.isOnTime = true
  · rw [if_pos htime, Option.map_eq_some_iff]
    constructor
    · rintro ⟨u, hu, rfl⟩
      exact ⟨htime, hu, rfl⟩
    · rintro ⟨-, hu, hop⟩
      exact ⟨b.2, hu, Prod.ext hop rfl⟩
  · simp [htime]

/-- **A window loses nothing**: every instant is in it at which all comparisons of time are true. -/
theorem contains_of_holds (hread : read context q = .ok r)
    (h : ∀ c ∈ r.statement.comparisons, c.isOnTime = true → c.HoldsAt similar context.now t) :
    r.window.Contains t := by
  rw [(window_of_read hread).2]
  have hall : ∀ b ∈ r.statement.comparisons.filterMap (Comparison.bound? context.now), b.1.Holds similar t b.2 := by
    intro b hb
    obtain ⟨c, hc, htime, hu, hop⟩ := mem_bounds.1 hb
    obtain ⟨u, hu', hholds⟩ := h c hc htime
    rw [hu] at hu'
    cases hu'
    rwa [hop] at hholds
  exact Window.contains_restrictAll (Window.contains_unbounded t) hall

theorem holds_of_contains (hread : read context q = .ok r) (ht : r.window.Contains t) :
    ∀ c ∈ r.statement.comparisons, c.isOnTime = true → c.IsBound context.now → c.HoldsAt similar context.now t := by
  rintro c hc htime ⟨u, hu, hbounds⟩
  rw [(window_of_read hread).2] at ht
  exact ⟨u, hu, Window.holds_of_contains_restrictAll ht (c.operator, u) (mem_bounds.2 ⟨c, hc, htime, hu, rfl⟩) hbounds⟩

/-- **A window is exactly what its comparisons of time say** when those that set no bounds, and those that set them
at an end of the range, are true throughout it. -/
theorem window_exact_iff (hread : read context q = .ok r) {first last : Int64}
    (hbounds : r.window.bounds? = some (first, last)) (similar : Int64 → Int64 → Prop) :
    (∀ t, first ≤ t ∧ t ≤ last ↔
      ∀ c ∈ r.statement.comparisons, c.isOnTime = true → c.HoldsAt similar context.now t) ↔
    ∀ c ∈ r.statement.comparisons, c.isOnTime = true → ¬ c.IsBound context.now →
      ∀ t, first ≤ t → t ≤ last → c.HoldsAt similar context.now t := by
  simp only [← Window.contains_iff_of_bounds? hbounds]
  constructor
  · intro hexact c hc htime _ t hfirst hlast
    exact (hexact t).1 ((Window.contains_iff_of_bounds? hbounds t).2 ⟨hfirst, hlast⟩) c hc htime
  · intro hspared t
    refine ⟨fun ht c hc htime => ?_, contains_of_holds hread⟩
    by_cases hbound : c.IsBound context.now
    · exact holds_of_contains hread ht c hc htime hbound
    · obtain ⟨hfirst, hlast⟩ := (Window.contains_iff_of_bounds? hbounds t).1 ht
      exact hspared c hc htime hbound t hfirst hlast

end

/-! ## An instant left out -/

namespace Excluding

def context : Context := ⟨Catalog.empty, 0⟩

/-- The values of a window, but for one instant. -/
def statement (excluded : Int64) : Select where
  fields := [⟨.name "v".toList none, none⟩]
  source := ⟨none, none, .name "m".toList⟩
  condition := some (.joined (windowCondition 0 10) .and (timeComparison .ne excluded))
  dimensions := []
  fill := none
  order := none
  limit := none
  offset := none
  seriesLimit := none
  seriesOffset := none
  zone := none

def request (excluded : Int64) : Request :=
  ofFindings context "m".toList (statement excluded) ⟨.between 0 10, false, [], []⟩

theorem read_inside :
    read context "SELECT v FROM m WHERE time >= 0 AND time <= 10 AND time != 5".toList = .ok (request 5) :=
  Outcome.eq_ok_of_toOption (by decide +kernel)

theorem read_outside :
    read context "SELECT v FROM m WHERE time >= 0 AND time <= 10 AND time != 20".toList = .ok (request 20) :=
  Outcome.eq_ok_of_toOption (by decide +kernel)

theorem comparisons_request (excluded : Int64) : (request excluded).statement.comparisons =
    [⟨timeName, .ge, .ofExpr (.literal (.integer 0))⟩, ⟨timeName, .le, .ofExpr (.literal (.integer 10))⟩,
      ⟨timeName, .ne, .ofExpr (.literal (.integer excluded))⟩] := rfl

/-- An instant outside of the window may be left out of it. -/
theorem spared_outside : ∀ c ∈ (request 20).statement.comparisons, c.isOnTime = true → ¬ c.IsBound context.now →
    ∀ t : Int64, 0 ≤ t → t ≤ 10 → c.HoldsAt Eq context.now t := by
  intro c hc _ hbound t _ hlast
  rw [comparisons_request, List.mem_cons, List.mem_cons, List.mem_singleton] at hc
  rcases hc with rfl | rfl | rfl
  · exact absurd ⟨0, rfl, trivial⟩ hbound
  · exact absurd ⟨10, rfl, trivial⟩ hbound
  · refine ⟨20, rfl, ?_⟩
    rintro rfl
    exact absurd hlast (by decide)

end Excluding

theorem window_exact_outside : (Excluding.request 20).window.bounds? = some (0, 10) ∧
    ∀ t : Int64, 0 ≤ t ∧ t ≤ 10 ↔ ∀ c ∈ (Excluding.request 20).statement.comparisons, c.isOnTime = true →
      c.HoldsAt Eq Excluding.context.now t :=
  ⟨rfl, (window_exact_iff Excluding.read_outside rfl Eq).2 Excluding.spared_outside⟩

/-- An instant that a query leaves out of its window is in the window all the same. -/
theorem not_window_exact : ¬ ∀ (context : Context) (q : Text) (r : Request) (first last : Int64),
    read context q = .ok r → r.isCacheable = true → r.window.bounds? = some (first, last) →
    ∀ (similar : Int64 → Int64 → Prop) (t : Int64), first ≤ t ∧ t ≤ last ↔
      ∀ c ∈ r.statement.comparisons, c.isOnTime = true → c.HoldsAt similar context.now t := by
  intro h
  have hinside := h _ _ _ 0 10 Excluding.read_inside (by decide) rfl Eq 5
  obtain ⟨u, hu, hne⟩ := hinside.1 ⟨by decide, by decide⟩
    ⟨timeName, .ne, .ofExpr (.literal (.integer 5))⟩ (by decide) (by decide)
  cases hu
  exact hne rfl

end Request
end SeriesCache
