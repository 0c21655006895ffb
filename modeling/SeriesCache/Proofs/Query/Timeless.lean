import SeriesCache.Proofs.Query.Pruning
import SeriesCache.Proofs.Query.Rewrite
/-!
# Signatures and windows

The bounds of time in a conjunction may stand anywhere in it: what is left of it are its other units, in order
(`Condition.without_eq_ofUnits?`), so queries that have these in common have one signature
(`Request.signature_eq_of_units`).  A request that is asked again for a window puts a join that is left in parentheses,
and the signature of what is read then has them too; it is the first one exactly when no join is left
(`Request.signature_inWindow_iff`).
-/
namespace SeriesCache

namespace Condition

variable {name : Text} {c u : Condition}

/-! ## Units -/

/-- The units of a conjunction, from left to right. -/
def units : Condition → List Condition
  | joined a .and b => a.units ++ [b]
  | c => [c]

/-- Whether all comparisons are on the name. -/
def isAbout (name : Text) (c : Condition) : Bool := c.comparisons.all fun x => x.isOn name

/-- Whether it is a comparison, or a group of which all comparisons are on the name or none is. -/
def isUnit (name : Text) : Condition → Bool
  | comparison _ => true
  | group a => a.isAbout name || a.comparisons.all fun x => !x.isOn name
  | joined _ _ _ => false

/-- Some units as a conjunction, which is nothing when there are none. -/
def ofUnits? : List Condition → Option Condition
  | [] => none
  | u :: us => some (us.foldl (fun a b => joined a .and b) u)

theorem ofUnits?_concat (us : List Condition) (u : Condition) :
    ofUnits? (us ++ [u]) = join? .and (ofUnits? us) (some u) := by
  cases us with
  | nil => rfl
  | cons v us =>
    rw [List.cons_append, ofUnits?, List.foldl_append]
    rfl

/-- A unit is pruned as a whole or not at all. -/
theorem without_unit (h : u.isUnit name = true) : u.without name = if u.isAbout name then none else some u := by
  split
  · rename_i habout
    exact without_eq_none_iff.2 (List.all_eq_true.1 habout)
  · rename_i habout
    refine without_eq_self ?_
    cases u with
    | comparison x => simpa [isAbout, comparisons] using habout
    | joined a op b => cases h
    | group a =>
      have hother : (a.comparisons.all fun x => !x.isOn name) = true :=
        (Bool.or_eq_true_iff.1 h).resolve_left habout
      simpa [comparisons] using hother

/-- **What is left of a conjunction are its units about other names**, wherever those about the name stood. -/
theorem without_eq_ofUnits? (h : ∀ u ∈ c.units, u.isUnit name = true) :
    c.without name = ofUnits? (c.units.filter fun u => !u.isAbout name) := by
  have hsingle {u : Condition} (hu : u.isUnit name = true) :
      u.without name = ofUnits? ([u].filter fun u => !u.isAbout name) := by
    rw [without_unit hu]
    cases habout : u.isAbout name <;> simp [habout, ofUnits?]
  induction c with
  | comparison x => exact hsingle rfl
  | group a ih => exact hsingle (h _ List.mem_cons_self)
  | joined a op b iha ihb =>
    cases op with
    | or => cases h _ List.mem_cons_self
    | and =>
      obtain ⟨ha, hb⟩ := List.forall_mem_append.1 h
      rw [without, iha ha, without_unit (hb b List.mem_cons_self), units, List.filter_append]
      cases habout : b.isAbout name with
      | true => simp [habout, join?_none]
      | false => simp [habout, ofUnits?_concat]

/-! ## Parentheses -/

theorem enclosed_enclosed (c : Condition) : c.enclosed.enclosed = c.enclosed := by
  cases c <;> rfl

/-- A join is longer in parentheses than without. -/
theorem text_enclosed_eq_iff : c.enclosed.text = c.text ↔ ∀ a op b, c ≠ joined a op b := by
  cases c with
  | comparison x => simp [enclosed]
  | group a => simp [enclosed]
  | joined a op b =>
    constructor
    · intro h
      have hlength := congrArg List.length h
      simp only [enclosed, text, List.length_cons, List.length_append, List.length_nil] at hlength
      omega
    · exact fun h => absurd rfl (h a op b)

end Condition

namespace Select

/-- The units of a statement's condition, none when it has no condition. -/
def units (s : Select) : List Condition := s.condition.elim [] Condition.units

/-- Statements that differ in their conditions have one text exactly when the conditions have. -/
theorem text_withCondition_eq_iff {s : Select} {c d : Condition} :
    { s with condition := some c }.text = { s with condition := some d }.text ↔ c.text = d.text := by
  rw [text_eq, text_eq]
  show _ ++ ' ' :: (_ ++ ' ' :: (s.source.text ++ (' ' :: ("WHERE ".toList ++ c.text) ++ s.tailText))) =
    _ ++ ' ' :: (_ ++ ' ' :: (s.source.text ++ (' ' :: ("WHERE ".toList ++ d.text) ++ s.tailText))) ↔ _
  simp

end Select

namespace Request

variable {r r' : Request}

/-! ## Bounds that stand elsewhere -/

theorem conditionWithoutTime_eq_ofUnits? (h : ∀ u ∈ r.statement.units, u.isUnit timeName = true) :
    r.conditionWithoutTime = Condition.ofUnits? (r.statement.units.filter fun u => !u.isAbout timeName) := by
  unfold Select.units at h ⊢
  unfold conditionWithoutTime
  cases hc : r.statement.condition with
  | none => rfl
  | some c =>
    rw [hc] at h
    exact Condition.without_eq_ofUnits? h

/-- **Requests that differ in their windows alone have one signature.**  But for their conditions the statements are the
same, each condition is a conjunction of units that are about time or about other names, and the latter are the same
in the same order. -/
theorem signature_eq_of_units (hsame : r'.statement = { r.statement with condition := r'.statement.condition })
    (hunits : ∀ u ∈ r.statement.units, u.isUnit timeName = true)
    (hunits' : ∀ u ∈ r'.statement.units, u.isUnit timeName = true)
    (hothers : (r.statement.units.filter fun u => !u.isAbout timeName) =
      r'.statement.units.filter fun u => !u.isAbout timeName) : r.signature = r'.signature := by
  have hcondition : r.conditionWithoutTime = r'.conditionWithoutTime := by
    rw [conditionWithoutTime_eq_ofUnits? hunits, hothers, ← conditionWithoutTime_eq_ofUnits? hunits']
  rw [signature, signature, hcondition, hsame]

/-! ## Values over windows -/

namespace Values

def context : Context := ⟨Catalog.empty, 0⟩

def one : Condition := .comparison ⟨"a".toList, .eq, ⟨"1".toList, .literal (.integer 1)⟩⟩

def two : Condition := .comparison ⟨"b".toList, .eq, ⟨"2".toList, .literal (.integer 2)⟩⟩

def predicate (name literal : String) (role : Condition.Role) : Predicate :=
  ⟨name.toList, .eq, literal.toList, literal.toList, .int64, role⟩

/-- The values of a measurement where the condition is true. -/
def statement (condition : Condition) : Select where
  fields := [⟨.name "v".toList none, none⟩]
  source := ⟨none, none, .name "m".toList⟩
  condition := some condition
  dimensions := []
  fill := none
  order := none
  limit := none
  offset := none
  seriesLimit := none
  seriesOffset := none
  zone := none

def request (condition : Condition) (findings : Findings) : Request :=
  ofFindings context "m".toList (statement condition) findings

/-- Two comparisons in front of the bounds of a window. -/
def both : Request := request
  (.joined (.joined (.joined one .and two) .and (timeComparison .ge 0)) .and (timeComparison .le 10))
  ⟨.between 0 10, false, [], [predicate "a" "1" .conjunct, predicate "b" "2" .conjunct]⟩

def bounds : Condition :=
  .group (.joined (timeComparison .lt 9) .or (.comparison ⟨"TIME".toList, .eq, .ofExpr (.literal (.integer 20))⟩))

/-- The same behind comparisons of time, of which the last two are in a group. -/
def early : Request := request
  (.joined (.joined (.joined (timeComparison .gt 0) .and one) .and bounds) .and two)
  ⟨.between 20 8, true, [], [predicate "a" "1" .conjunct, predicate "b" "2" .conjunct]⟩

theorem read_both :
    read context "SELECT v FROM m WHERE a = 1 AND b = 2 AND time >= 0 AND time <= 10".toList = .ok both :=
  Outcome.eq_ok_of_toOption (by decide +kernel)

theorem read_early : read context
    "SELECT v FROM m WHERE time > 0 AND a = 1 AND (time < 9 OR TIME = 20) AND b = 2".toList = .ok early :=
  Outcome.eq_ok_of_toOption (by decide +kernel)

end Values

theorem signature_eq_of_units_moved : ∃ r r',
    read Values.context "SELECT v FROM m WHERE a = 1 AND b = 2 AND time >= 0 AND time <= 10".toList = .ok r ∧
    read Values.context
      "SELECT v FROM m WHERE time > 0 AND a = 1 AND (time < 9 OR TIME = 20) AND b = 2".toList = .ok r' ∧
    (∀ u ∈ r.statement.units, u.isUnit timeName = true) ∧ (∀ u ∈ r'.statement.units, u.isUnit timeName = true) ∧
    r.signature = r'.signature :=
  have hboth : ∀ u ∈ Values.both.statement.units, u.isUnit timeName = true := by decide
  have hearly : ∀ u ∈ Values.early.statement.units, u.isUnit timeName = true := by decide
  ⟨_, _, Values.read_both, Values.read_early, hboth, hearly, signature_eq_of_units rfl hboth hearly rfl⟩

/-! ## Requests asked again -/

theorem isOnTime_of_mem_conditionWithoutTime {d : Condition} (hd : d ∈ r.conditionWithoutTime) :
    ∀ x ∈ d.comparisons, x.isOnTime = false := by
  have hcomparisons := comparisons_conditionWithoutTime r
  rw [show r.conditionWithoutTime = some d from hd] at hcomparisons
  intro x hx
  rw [show d.comparisons = _ from hcomparisons] at hx
  simpa using (List.mem_filter.1 hx).2

/-- What is left without the bounds of a window is what stood in front of them. -/
theorem without_reread (first last : Int64) {d? : Option Condition}
    (h : ∀ d ∈ d?, ∀ x ∈ d.comparisons, x.isOnTime = false) :
    (reread first last d?).without timeName = d?.map Condition.enclosed := by
  have hbound (op : Operator) (t : Int64) : (timeComparison op t).without timeName = none := rfl
  cases d? with
  | none => rfl
  | some d =>
    have hd : d.enclosed.without timeName = some d.enclosed := Condition.without_eq_self fun x hx => by
      rw [Condition.comparisons_enclosed] at hx
      exact h d rfl x hx
    rw [reread, Condition.without, Condition.without, hd, hbound, hbound]
    rfl

/-- A statement that was read is read as a request with another condition in it. -/
theorem exists_read_withCondition {context : Context} {q : Text} (hread : read context q = .ok r)
    (hagain : Select.read { r.statement with condition := none }.text = .ok { r.statement with condition := none })
    {c : Condition} (hc : c.Fits Condition.Reads .disjunction) (htimed : ∀ x ∈ c.comparisons, x.IsTimed context.now) :
    ∃ r', read context { r.statement with condition := some c }.text = .ok r' ∧
      r'.statement = { r.statement with condition := some c } := by
  obtain ⟨-, s, m, f, hselect, hname, -, rfl⟩ := read_eq_ok_iff.1 hread
  have hselect' : Select.read { s with condition := some c }.text = .ok { s with condition := some c } :=
    Select.read_withCondition (Scan.printed_of_read hselect).fields hname hagain hc
  obtain ⟨f', hf'⟩ : ∃ f', Findings.ofCondition? context m (some c) = .ok f' :=
    Findings.exists_ofCondition? (s := { s with condition := some c }) htimed
  refine ⟨ofFindings context m { s with condition := some c } f', ?_, rfl⟩
  exact read_eq_ok_iff.2 ⟨by rw [Select.text_eq]; rfl, _, m, f', hselect', hname, hf', rfl⟩

/-- A request that is asked again for a window is read with the window in its condition. -/
theorem exists_read_inWindow {context : Context} {q : Text} (hread : read context q = .ok r)
    (hagain : Select.read { r.statement with condition := none }.text = .ok { r.statement with condition := none })
    (first last : Int64) : ∃ r', read context (r.inWindow first last) = .ok r' ∧
      r'.statement = { r.statement with condition := some (reread first last r.conditionWithoutTime) } := by
  rw [inWindow_eq]
  refine exists_read_withCondition hread hagain (fits_reread first last (fits_conditionWithoutTime hread)) ?_
  rw [comparisons_reread, comparisons_conditionWithoutTime]
  exact isTimed_of_mem context.now _ first last

/-- What is left of a request that is asked again is what was left before, in parentheses if it is a join. -/
theorem conditionWithoutTime_of_reread {first last : Int64}
    (h : r'.statement = { r.statement with condition := some (reread first last r.conditionWithoutTime) }) :
    r'.conditionWithoutTime = r.conditionWithoutTime.map Condition.enclosed := by
  rw [conditionWithoutTime, h]
  exact without_reread first last fun _ => isOnTime_of_mem_conditionWithoutTime

theorem signature_of_reread {first last : Int64}
    (h : r'.statement = { r.statement with condition := some (reread first last r.conditionWithoutTime) }) :
    r'.signature = { r.statement with condition := r.conditionWithoutTime.map Condition.enclosed }.text := by
  rw [signature, conditionWithoutTime_of_reread h, h]

/-- **A request that is asked again for a window keeps its signature** exactly when what is left of its condition is no
join.  Once it has been asked again, it keeps the signature whatever windows it is asked for. -/
theorem signature_inWindow_iff {context : Context} {q : Text} (hread : read context q = .ok r)
    (hagain : Select.read { r.statement with condition := none }.text = .ok { r.statement with condition := none })
    (first last : Int64) : ∃ r', read context (r.inWindow first last) = .ok r' ∧
      (r'.signature = r.signature ↔ ∀ a op b, r.conditionWithoutTime ≠ some (.joined a op b)) ∧
      ∀ first' last', ∃ r'', read context (r'.inWindow first' last') = .ok r'' ∧ r''.signature = r'.signature := by
  obtain ⟨r', hread', hr'⟩ := exists_read_inWindow hread hagain first last
  refine ⟨r', hread', ?_, fun first' last' => ?_⟩
  · rw [signature_of_reread hr', signature]
    cases r.conditionWithoutTime with
    | none => simp
    | some d =>
      rw [Option.map_some, Select.text_withCondition_eq_iff, Condition.text_enclosed_eq_iff]
      simp
  · have hleft : r'.conditionWithoutTime.map Condition.enclosed = r'.conditionWithoutTime := by
      rw [conditionWithoutTime_of_reread hr', Option.map_map]
      exact congrArg (Option.map · r.conditionWithoutTime) (funext Condition.enclosed_enclosed)
    obtain ⟨r'', hread'', hr''⟩ := exists_read_inWindow hread' (by rw [hr']; exact hagain) first' last'
    refine ⟨r'', hread'', ?_⟩
    rw [signature_of_reread hr'', hleft, signature]

theorem Values.read_unconditional : Select.read { Values.both.statement with condition := none }.text =
    .ok { Values.both.statement with condition := none } :=
  Outcome.eq_ok_of_toOption (by decide +kernel)

theorem signature_inWindow_iff_pair : ∃ r', read Values.context (Values.both.inWindow 6 10) = .ok r' ∧
    r'.signature ≠ Values.both.signature ∧
    ∀ first last, ∃ r'', read Values.context (r'.inWindow first last) = .ok r'' ∧ r''.signature = r'.signature := by
  obtain ⟨r', hread, hsignature, hagain⟩ := signature_inWindow_iff Values.read_both Values.read_unconditional 6 10
  exact ⟨r', hread, fun h => hsignature.1 h Values.one .and Values.two rfl, hagain⟩

/-- Two comparisons are in parentheses when they are asked for a window, and the signature tells. -/
theorem not_signature_inWindow : ¬ ∀ (context : Context) (q : Text) (r r' : Request) (first last : Int64),
    read context q = .ok r →
    Select.read { r.statement with condition := none }.text = .ok { r.statement with condition := none } →
    read context (r.inWindow first last) = .ok r' → r'.signature = r.signature := by
  intro h
  obtain ⟨r', hread, hr'⟩ := exists_read_inWindow Values.read_both Values.read_unconditional 6 10
  have hsame : { Values.both.statement with condition := some (.group (.joined Values.one .and Values.two)) }.text =
      { Values.both.statement with condition := some (.joined Values.one .and Values.two) }.text :=
    (signature_of_reread hr').symm.trans (h _ _ _ _ 6 10 Values.read_both Values.read_unconditional hread)
  exact Condition.text_enclosed_eq_iff.1 (Select.text_withCondition_eq_iff.1 hsame) Values.one .and Values.two rfl

end Request
end SeriesCache
