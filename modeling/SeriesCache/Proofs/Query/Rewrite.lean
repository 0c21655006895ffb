import SeriesCache.Proofs.Query.Bounds
import SeriesCache.Proofs.Query.Signature
import SeriesCache.Proofs.Query.Window
/-!
# Asking again for a window

A request that is printed for a window is read as a request for that window, with the rest unchanged, and its condition
says that the instant is in the window and that what was left of the condition is true
(`Request.inWindow_reads_back`).  A join that is left is put in parentheses, so that the bounds do not come between its
sides.
-/
namespace SeriesCache

open Reader

variable {similar : Int64 → Int64 → Prop}

/-! ## Conditions -/

namespace Condition

/-- A condition that a conjunction may go on with: a join is put in parentheses. -/
def enclosed : Condition → Condition
  | joined a op b => group (joined a op b)
  | comparison c => comparison c
  | group a => group a

theorem Fits.enclosed {P : Comparison → Prop} {c : Condition} (h : c.Fits P .disjunction) : c.enclosed.Fits P .unit := by
  cases c <;> exact h

theorem holds_enclosed (isTrue : Comparison → Bool) (c : Condition) : c.enclosed.holds isTrue = c.holds isTrue := by
  cases c <;> rfl

theorem comparisons_enclosed (c : Condition) : c.enclosed.comparisons = c.comparisons := by
  cases c <;> rfl

end Condition

namespace Request

open Condition (Fits Reads)

/-- What the condition for a window is read as: its bounds are joined to what was left one by one. -/
def reread (first last : Int64) : Option Condition → Condition
  | none => windowCondition first last
  | some d => .joined (.joined d.enclosed .and (timeComparison .ge first)) .and (timeComparison .le last)

theorem text_reread (first last : Int64) (d : Option Condition) :
    (conditionIn (windowCondition first last) d).text = (reread first last d).text := by
  have hjoined (c : Condition) : (Condition.joined c .and (windowCondition first last)).text =
      (Condition.joined (.joined c .and (timeComparison .ge first)) .and (timeComparison .le last)).text := by
    simp only [windowCondition, Condition.text, List.append_assoc, List.cons_append]
  cases d with
  | none => rfl
  | some d => cases d <;> exact hjoined _

theorem fits_reread (first last : Int64) {d : Option Condition} (h : ∀ c ∈ d, c.Fits Reads .disjunction) :
    (reread first last d).Fits Reads .disjunction := by
  cases d with
  | none => exact Condition.fits_window first last
  | some d => exact ⟨⟨(h d rfl).enclosed.conjunction, Condition.fits_timeComparison .ge first .unit⟩,
      Condition.fits_timeComparison .le last .unit⟩

/-- The two bounds of a window. -/
def boundsOf (first last : Int64) : List Comparison :=
  (timeComparison .ge first).comparisons ++ (timeComparison .le last).comparisons

theorem comparisons_reread (first last : Int64) (d : Option Condition) :
    (reread first last d).comparisons = d.elim [] Condition.comparisons ++ boundsOf first last := by
  cases d with
  | none => rfl
  | some d =>
    show d.enclosed.comparisons ++ _ ++ _ = _
    rw [Condition.comparisons_enclosed, List.append_assoc]
    rfl

/-- **The bounds and what was left are true together.** -/
theorem holds_reread {now : Int64} {isTrue : Comparison → Bool} {t : Int64}
    (htime : ∀ c : Comparison, c.isOnTime = true → (isTrue c = true ↔ c.HoldsAt similar now t)) (first last : Int64)
    (d : Option Condition) : (reread first last d).holds isTrue = true ↔
      (first ≤ t ∧ t ≤ last) ∧ ∀ c ∈ d, c.holds isTrue = true := by
  have hbound (op : Operator) (u : Int64) : (timeComparison op u).holds isTrue = true ↔ op.Holds similar t u := by
    show isTrue _ = true ↔ _
    rw [htime _ rfl]
    constructor
    · rintro ⟨u', hu', h⟩
      cases hu'
      exact h
    · exact fun h => ⟨u, rfl, h⟩
  have hge := hbound .ge first
  have hle := hbound .le last
  cases d with
  | none =>
    show ((timeComparison .ge first).holds isTrue && (timeComparison .le last).holds isTrue) = true ↔ _
    rw [Bool.and_eq_true, hge, hle]
    simp [Operator.Holds]
  | some d =>
    show (d.enclosed.holds isTrue && (timeComparison .ge first).holds isTrue &&
      (timeComparison .le last).holds isTrue) = true ↔ _
    rw [Bool.and_eq_true, Bool.and_eq_true, hge, hle, Condition.holds_enclosed, and_assoc, and_comm]
    simp [Operator.Holds]

/-! ## Findings -/

theorem comparisons_conditionWithoutTime (r : Request) : r.conditionWithoutTime.elim [] Condition.comparisons =
    r.statement.comparisons.filter fun c => !c.isOnTime := by
  unfold conditionWithoutTime Select.comparisons
  cases r.statement.condition with
  | none => rfl
  | some c => exact Condition.comparisons_without timeName c

theorem filterMap_predicate?_filter (cs : List Comparison) :
    (cs.filter fun c => !c.isOnTime).filterMap Comparison.predicate? = cs.filterMap Comparison.predicate? := by
  rw [List.filterMap_filter]
  refine congrArg (List.filterMap · cs) (funext fun c => ?_)
  unfold Comparison.predicate?
  cases c.isOnTime <;> rfl

theorem filterMap_bound?_filter (now : Int64) (cs : List Comparison) :
    (cs.filter fun c => !c.isOnTime).filterMap (Comparison.bound? now) = [] := by
  refine List.filterMap_eq_nil_iff.2 fun c hc => ?_
  obtain ⟨-, htime⟩ := List.mem_filter.1 hc
  rw [Comparison.bound?, if_neg (by simpa using htime)]

/-- What is left of some comparisons tells the same predicates, and the bounds behind it the window. -/
theorem tells_boundsOf {context : Context} {m : Text} {cs : List Comparison} {f f' : Findings} {first last : Int64}
    (h : Findings.none.Tells context m cs f)
    (h' : Findings.none.Tells context m ((cs.filter fun c => !c.isOnTime) ++ boundsOf first last) f') :
    f'.window = .between first last ∧ f'.tagPredicates.map Predicate.alone = f.tagPredicates.map Predicate.alone ∧
      f'.fieldPredicates.map Predicate.alone = f.fieldPredicates.map Predicate.alone := by
  have hpredicates : ((cs.filter fun c => !c.isOnTime) ++ boundsOf first last).filterMap Comparison.predicate? =
      cs.filterMap Comparison.predicate? := by
    rw [List.filterMap_append, filterMap_predicate?_filter]
    exact List.append_nil _
  refine ⟨?_, by rw [h'.tags, h.tags, hpredicates], by rw [h'.fields, h.fields, hpredicates]⟩
  rw [h'.window, List.filterMap_append, filterMap_bound?_filter]
  rfl

theorem isTimed_of_mem (now : Int64) (cs : List Comparison) (first last : Int64) :
    ∀ c ∈ (cs.filter fun c => !c.isOnTime) ++ boundsOf first last, c.IsTimed now := by
  refine List.forall_mem_append.2 ⟨fun c hc htime => ?_, ?_⟩
  · obtain ⟨-, hother⟩ := List.mem_filter.1 hc
    rw [htime] at hother
    cases hother
  · exact List.forall_mem_cons.2 ⟨fun _ => ⟨first, rfl⟩, List.forall_mem_singleton.2 fun _ => ⟨last, rfl⟩⟩

/-! ## Requests -/

theorem fits_conditionWithoutTime {context : Context} {q : Text} {r : Request} (hread : read context q = .ok r) :
    ∀ c ∈ r.conditionWithoutTime, c.Fits Reads .disjunction := by
  obtain ⟨-, s, m, f, hselect, -, -, rfl⟩ := read_eq_ok_iff.1 hread
  intro d hd
  obtain ⟨c, hc, hd⟩ := Option.bind_eq_some_iff.1 hd
  exact Condition.fits_without timeName hd (Select.fits_of_read hselect c hc)

theorem inWindow_eq (r : Request) (first last : Int64) : r.inWindow first last =
    { r.statement with condition := some (reread first last r.conditionWithoutTime) }.text := by
  unfold inWindow Select.text Select.clause
  simp only [text_reread]
  rfl

/-- The second request asks for a window of what the first asks for: all but the window is the same, roles of
predicates aside. -/
structure AsksIn (r' r : Request) (first last : Int64) : Prop where
  window : r'.window = .between first last
  measurement : r'.measurement = r.measurement
  fields : r'.fields = r.fields
  wildcard : r'.wildcard = r.wildcard
  aggregation : r'.aggregation = r.aggregation
  groupTags : r'.groupTags = r.groupTags
  groupInterval : r'.groupInterval = r.groupInterval
  tagPredicates : r'.tagPredicates.map Predicate.alone = r.tagPredicates.map Predicate.alone
  fieldPredicates : r'.fieldPredicates.map Predicate.alone = r.fieldPredicates.map Predicate.alone

/-- **A request that is asked again for a window is read as one for that window**, and its condition is true where the
instant is in the window and what is left of the first condition is true. -/
theorem inWindow_reads_back {context : Context} {q : Text} {r : Request} (hread : read context q = .ok r)
    (hagain : Select.read { r.statement with condition := none }.text = .ok { r.statement with condition := none })
    (first last : Int64) : ∃ r' c, read context (r.inWindow first last) = .ok r' ∧ r'.AsksIn r first last ∧
      r'.statement.condition = some c ∧
      ∀ (similar : Int64 → Int64 → Prop) (isTrue : Comparison → Bool) (t : Int64),
        (∀ x : Comparison, x.isOnTime = true → (isTrue x = true ↔ x.HoldsAt similar context.now t)) →
        (c.holds isTrue = true ↔ (first ≤ t ∧ t ≤ last) ∧ ∀ d ∈ r.conditionWithoutTime, d.holds isTrue = true) := by
  have hfits := fits_conditionWithoutTime hread
  have hcomparisons := comparisons_conditionWithoutTime r
  have htext := inWindow_eq r first last
  obtain ⟨-, s, m, f, hselect, hname, hf, rfl⟩ := read_eq_ok_iff.1 hread
  generalize hd : conditionWithoutTime (ofFindings context m s f) = d at *
  have hsecond : { s with condition := some (reread first last d) }.comparisons =
      (s.comparisons.filter fun c => !c.isOnTime) ++ boundsOf first last :=
    (comparisons_reread first last d).trans (congrArg (· ++ boundsOf first last) hcomparisons)
  have hselect' : Select.read { s with condition := some (reread first last d) }.text =
      .ok { s with condition := some (reread first last d) } :=
    Select.read_withCondition (Scan.printed_of_read hselect).fields hname hagain (fits_reread first last hfits)
  obtain ⟨f', hf'⟩ : ∃ f', Findings.ofCondition? context m (some (reread first last d)) = .ok f' :=
    Findings.exists_ofCondition? (s := { s with condition := some (reread first last d) })
      (hsecond ▸ isTimed_of_mem context.now s.comparisons first last)
  have htells := Findings.tells_of_ofCondition? (s := { s with condition := some (reread first last d) }) hf'
  rw [hsecond] at htells
  obtain ⟨hwindow, htags, hfields⟩ := tells_boundsOf (Findings.tells_of_ofCondition? hf) htells
  refine ⟨ofFindings context m { s with condition := some (reread first last d) } f', reread first last d, ?_, ?_, rfl,
    fun similar isTrue t htime => holds_reread htime first last d⟩
  · rw [htext]
    exact read_eq_ok_iff.2 ⟨by rw [Select.text_eq]; rfl, _, m, f', hselect', hname, hf', rfl⟩
  · exact ⟨hwindow, rfl, rfl, rfl, rfl, rfl, rfl, htags, hfields⟩

/-! ## A join in a window -/

namespace Joined

def context : Context := ⟨Catalog.empty.withTags "m".toList ["h".toList], 0⟩

/-- Means by host, where the host is one or a value is low. -/
def request : Request :=
  ofFindings context "m".toList
    { fields := [⟨.call "mean".toList [.name "v".toList none], none⟩]
      source := ⟨none, none, .name "m".toList⟩
      condition := some (.joined (.comparison ⟨"h".toList, .eq, ⟨"'x'".toList, .literal (.string "x".toList)⟩⟩) .or
        (.joined (.comparison ⟨"b".toList, .lt, ⟨"3".toList, .literal (.integer 3)⟩⟩) .and (timeComparison .gt 5)))
      dimensions := [.tag "h".toList, .time ⟨60000000000⟩ none]
      fill := none
      order := none
      limit := none
      offset := none
      seriesLimit := none
      seriesOffset := none
      zone := none }
    { window := ⟨some 6, none⟩
      underOr := true
      tagPredicates := [⟨"h".toList, .eq, "'x'".toList, "x".toList, .string, .disjunct⟩]
      fieldPredicates := [⟨"b".toList, .lt, "3".toList, "3".toList, .int64, .conjunct⟩] }

theorem read_request : read context
    "SELECT mean(v) FROM m WHERE h = 'x' OR b < 3 AND time > 5 GROUP BY h, time(1m)".toList = .ok request :=
  Outcome.eq_ok_of_toOption (by decide +kernel)

theorem read_unconditional : Select.read { request.statement with condition := none }.text =
    .ok { request.statement with condition := none } :=
  Outcome.eq_ok_of_toOption (by decide +kernel)

end Joined

theorem inWindow_reads_back_joined : Joined.request.inWindow (-10) 20 =
      "SELECT mean(v) FROM m WHERE (h = 'x' OR b < 3) AND time >= -10 AND time <= 20 GROUP BY h, time(1m)".toList ∧
    ∃ r' c, read Joined.context (Joined.request.inWindow (-10) 20) = .ok r' ∧ r'.AsksIn Joined.request (-10) 20 ∧
      r'.statement.condition = some c ∧
      ∀ (similar : Int64 → Int64 → Prop) (isTrue : Comparison → Bool) (t : Int64),
        (∀ x : Comparison, x.isOnTime = true → (isTrue x = true ↔ x.HoldsAt similar Joined.context.now t)) →
        (c.holds isTrue = true ↔
          (-10 ≤ t ∧ t ≤ 20) ∧ ∀ d ∈ Joined.request.conditionWithoutTime, d.holds isTrue = true) :=
  ⟨by decide +kernel, inWindow_reads_back Joined.read_request Joined.read_unconditional (-10) 20⟩

end Request
end SeriesCache
