import SeriesCache.Key.Build
import SeriesCache.Proofs.Key.RoundTrip
import SeriesCache.Proofs.Lists
import SeriesCache.Proofs.Payload.Series
import SeriesCache.Proofs.Query.Findings
/-!
# One key for all spellings of a question

The key of an answer sorts what a request says of tags and fields, and has each assignment and constraint once, so it
depends on the sets of predicates alone (`Request.keyOf_congr`).  Two queries that make the same comparisons, joined
in any way and over any window, and group by the same dimensions in any order, therefore name every answer by the
same keys (`Request.keys_canonical`).
-/
namespace SeriesCache

/-! ## Dimensions -/

def Dimension.isTime : Dimension → Bool
  | time _ _ => true
  | _ => false

namespace Request

/-- The interval that a dimension names, as a key has it. -/
def timeText? : Dimension → Option Text
  | .time interval offset => some (intervalText interval offset)
  | _ => none

theorem intervalOf_eq (dimensions : List Dimension) :
    intervalOf dimensions = (dimensions.filterMap timeText?).getLast? := by
  unfold intervalOf
  rw [foldl_eq_getLast? (g := timeText?) fun found d => by cases d <;> rfl, Option.or_none]

theorem length_filterMap_timeText? (dimensions : List Dimension) :
    (dimensions.filterMap timeText?).length = (dimensions.filter Dimension.isTime).length := by
  induction dimensions with
  | nil => rfl
  | cons d ds ih =>
    cases d with
    | time interval offset =>
      have htext : timeText? (.time interval offset) = some (intervalText interval offset) := rfl
      rw [List.filterMap_cons_some htext, List.filter_cons_of_pos rfl, List.length_cons, List.length_cons, ih]
    | _ => rw [List.filterMap_cons_none rfl, List.filter_cons_of_neg Bool.false_ne_true, ih]

/-- With one time dimension at most, the order of dimensions does not tell. -/
theorem intervalOf_perm {dimensions dimensions' : List Dimension} (h : dimensions.Perm dimensions')
    (htime : (dimensions.filter Dimension.isTime).length ≤ 1) : intervalOf dimensions = intervalOf dimensions' := by
  have hperm := h.filterMap timeText?
  rw [← length_filterMap_timeText?] at htime
  rw [intervalOf_eq, intervalOf_eq]
  generalize dimensions.filterMap timeText? = texts at hperm htime
  match texts with
  | [] => rw [List.nil_perm.1 hperm]
  | [t] => rw [List.singleton_perm.1 hperm]
  | _ :: _ :: _ => simp at htime

theorem groupTagsOf_perm {context : Context} {measurement : Text} {dimensions dimensions' : List Dimension}
    (h : dimensions.Perm dimensions') :
    groupTagsOf context measurement dimensions = groupTagsOf context measurement dimensions' :=
  Text.distinctOn_congr (fun _ _ => id) fun _ => (h.flatMap_right _).mem_iff

/-! ## Requests that ask the same -/

def assignmentOf (p : Predicate) : Assignment := ⟨p.name, p.operator, p.value⟩

/-- The requests differ in their windows, in how their predicates are joined, and in how often and in which order they
make them. -/
structure SameQuestion (r r' : Request) : Prop where
  measurement : r.measurement = r'.measurement
  fields : r.fields = r'.fields
  wildcard : r.wildcard = r'.wildcard
  aggregation : r.aggregation = r'.aggregation
  groupTags : r.groupTags = r'.groupTags
  groupInterval : r.groupInterval = r'.groupInterval
  tags : ∀ x, x ∈ r.tagPredicates.map Predicate.alone ↔ x ∈ r'.tagPredicates.map Predicate.alone
  constraints : ∀ x, x ∈ r.fieldPredicates.map Predicate.alone ↔ x ∈ r'.fieldPredicates.map Predicate.alone

variable {r r' : Request}

/-- The assignments of a segment that come from predicates. -/
theorem mem_restricted {groupTags : List Text} {predicates : List Predicate} {a : Assignment} :
    a ∈ (predicates.filter fun p => !groupTags.contains p.name).map assignmentOf ↔
      ∃ p ∈ predicates.map Predicate.alone, groupTags.contains p.name = false ∧ assignmentOf p = a := by
  simp only [List.mem_map, List.mem_filter, Bool.not_eq_true']
  constructor
  · rintro ⟨p, ⟨hp, hgroup⟩, rfl⟩
    exact ⟨p.alone, ⟨p, hp, rfl⟩, hgroup, rfl⟩
  · rintro ⟨_, ⟨p, hp, rfl⟩, hgroup, rfl⟩
    exact ⟨p, ⟨hp, hgroup⟩, rfl⟩

theorem segmentOf_congr (h : r.SameQuestion r') (t : Table) : r.segmentOf t = r'.segmentOf t := by
  unfold segmentOf Segment.ofAssignments
  rw [h.measurement, h.groupTags]
  dsimp only
  congr 1
  refine Text.distinctOn_congr (fun _ _ => Assignment.text_inj) fun a => ?_
  have hrestricted : a ∈ (r.tagPredicates.filter fun p => !r'.groupTags.contains p.name).map assignmentOf ↔
      a ∈ (r'.tagPredicates.filter fun p => !r'.groupTags.contains p.name).map assignmentOf := by
    rw [mem_restricted, mem_restricted]
    simp only [h.tags]
  rw [List.mem_append, List.mem_append]
  exact or_congr Iff.rfl hrestricted

theorem constraintsOf_congr (h : r.SameQuestion r') : r.constraintsOf = r'.constraintsOf := by
  have halone (predicates : List Predicate) :
      predicates.map constraintOf = (predicates.map Predicate.alone).map constraintOf := by
    rw [List.map_map]
    rfl
  unfold constraintsOf
  refine Text.distinctOn_congr (fun _ _ => Constraint.text_inj) fun c => ?_
  rw [halone, halone r'.fieldPredicates, List.mem_map, List.mem_map]
  simp only [h.constraints]

theorem columnsOf_congr (h : r.SameQuestion r') (catalog : Catalog) (a : Answer) :
    r.columnsOf catalog a = r'.columnsOf catalog a := by
  have hanswer : r.answerFields a = r'.answerFields a := by
    unfold answerFields
    rw [h.aggregation, h.wildcard]
  unfold columnsOf columnType declaredType?
  rw [h.fields, h.measurement, h.aggregation, h.wildcard, hanswer]

/-- **A key depends on what is asked alone.** -/
theorem keyOf_congr (h : r.SameQuestion r') (catalog : Catalog) (a : Answer) :
    r.keyOf catalog a = r'.keyOf catalog a := by
  have hsegments : r.segmentsOf a = r'.segmentsOf a := by
    unfold segmentsOf
    rw [h.groupTags, funext (segmentOf_congr h)]
  unfold keyOf
  rw [hsegments, columnsOf_congr h, constraintsOf_congr h, h.aggregation, h.groupInterval]

theorem tableKeysOf_congr (h : r.SameQuestion r') (catalog : Catalog) (a : Answer) :
    r.tableKeysOf catalog a = r'.tableKeysOf catalog a := by
  unfold tableKeysOf
  simp only [keyOf_congr h, segmentOf_congr h]

/-! ## Queries that ask the same -/

/-- The predicates of a condition are those of its comparisons that are not on time. -/
theorem mem_predicates {cs cs' : List Comparison} (h : ∀ c, c.isOnTime = false → (c ∈ cs ↔ c ∈ cs')) (p : Predicate) :
    p ∈ cs.filterMap Comparison.predicate? ↔ p ∈ cs'.filterMap Comparison.predicate? := by
  have htimeless {c : Comparison} (hp : c.predicate? = some p) : c.isOnTime = false := by
    cases htime : c.isOnTime with
    | false => rfl
    | true =>
      rw [Comparison.predicate?, htime] at hp
      cases hp
  rw [List.mem_filterMap, List.mem_filterMap]
  exact exists_congr fun c => and_congr_left fun hp => h c (htimeless hp)

theorem sameQuestion_of_read {context : Context} {q q' : Text} (hread : read context q = .ok r)
    (hread' : read context q' = .ok r')
    (hsame : r'.statement =
      { r.statement with condition := r'.statement.condition, dimensions := r'.statement.dimensions })
    (hcomparisons : ∀ c, c.isOnTime = false → (c ∈ r.statement.comparisons ↔ c ∈ r'.statement.comparisons))
    (hdimensions : r.statement.dimensions.Perm r'.statement.dimensions)
    (htime : (r.statement.dimensions.filter Dimension.isTime).length ≤ 1) : r.SameQuestion r' := by
  obtain ⟨-, s, m, f, -, hname, hf, rfl⟩ := read_eq_ok_iff.1 hread
  obtain ⟨-, s', m', f', -, hname', hf', rfl⟩ := read_eq_ok_iff.1 hread'
  simp only [ofFindings] at hsame hcomparisons hdimensions htime
  have hfields : s'.fields = s.fields := by rw [hsame]
  have hsource : s'.source = s.source := by rw [hsame]
  obtain rfl : m = m' := by
    rw [hsource, hname] at hname'
    cases hname'
    rfl
  have htells := Findings.tells_of_ofCondition? hf
  have htells' := Findings.tells_of_ofCondition? hf'
  have hpredicates := mem_predicates hcomparisons
  constructor
  case measurement => rfl
  case fields => simp only [ofFindings, hfields]
  case wildcard => simp only [ofFindings, hfields]
  case aggregation => simp only [ofFindings, hfields]
  case groupTags => exact groupTagsOf_perm hdimensions
  case groupInterval => exact intervalOf_perm hdimensions htime
  case tags =>
    intro p
    simp only [ofFindings, htells.tags, htells'.tags, List.mem_append, List.mem_filter, hpredicates]
  case constraints =>
    intro p
    simp only [ofFindings, htells.fields, htells'.fields, List.mem_append, List.mem_filter, hpredicates]

/-- **All spellings of a question have one key.**  The queries make the same comparisons, those on time aside, and group
by the same dimensions; how often and in which order they do, how the comparisons are joined and what window they
are for does not tell. -/
theorem keys_canonical {context : Context} {q q' : Text} (hread : read context q = .ok r)
    (hread' : read context q' = .ok r')
    (hsame : r'.statement =
      { r.statement with condition := r'.statement.condition, dimensions := r'.statement.dimensions })
    (hcomparisons : ∀ c, c.isOnTime = false → (c ∈ r.statement.comparisons ↔ c ∈ r'.statement.comparisons))
    (hdimensions : r.statement.dimensions.Perm r'.statement.dimensions)
    (htime : (r.statement.dimensions.filter Dimension.isTime).length ≤ 1) (catalog : Catalog) (a : Answer) :
    r.keyOf catalog a = r'.keyOf catalog a ∧ r.tableKeysOf catalog a = r'.tableKeysOf catalog a := by
  have h := sameQuestion_of_read hread hread' hsame hcomparisons hdimensions htime
  exact ⟨keyOf_congr h catalog a, tableKeysOf_congr h catalog a⟩

/-! ## Two spellings -/

namespace Spelled

def context : Context := ⟨Catalog.empty.withTags "m".toList ["h".toList], 0⟩

/-- One table with the tag that is grouped by. -/
def answer : Answer :=
  ⟨[⟨"m".toList, Dict.empty.insert "h".toList "x".toList, ["time".toList, "v".toList], [[.int64 6, .int64 1]]⟩], none⟩

def atHost : Condition := .comparison ⟨"h".toList, .eq, ⟨"'x'".toList, .literal (.string "x".toList)⟩⟩

def below : Condition := .comparison ⟨"b".toList, .lt, ⟨"3".toList, .literal (.integer 3)⟩⟩

def minutes : Dimension := .time ⟨60000000000⟩ none

def statement (condition : Condition) (dimensions : List Dimension) : Select where
  fields := [⟨.name "v".toList none, none⟩]
  source := ⟨none, none, .name "m".toList⟩
  condition := some condition
  dimensions
  fill := none
  order := none
  limit := none
  offset := none
  seriesLimit := none
  seriesOffset := none
  zone := none

def first : Request :=
  ofFindings context "m".toList
    (statement (.joined (.group (.joined atHost .or below)) .and (timeComparison .gt 5)) [.tag "h".toList, minutes])
    { window := ⟨some 6, none⟩
      underOr := true
      tagPredicates := [⟨"h".toList, .eq, "'x'".toList, "x".toList, .string, .disjunct⟩]
      fieldPredicates := [⟨"b".toList, .lt, "3".toList, "3".toList, .int64, .disjunct⟩] }

def second : Request :=
  ofFindings context "m".toList
    (statement (.joined (.joined below .and atHost) .and below) [minutes, .tag "h".toList])
    { window := .unbounded
      underOr := false
      tagPredicates := [⟨"h".toList, .eq, "'x'".toList, "x".toList, .string, .conjunct⟩]
      fieldPredicates := [⟨"b".toList, .lt, "3".toList, "3".toList, .int64, .conjunct⟩,
        ⟨"b".toList, .lt, "3".toList, "3".toList, .int64, .conjunct⟩] }

theorem read_first :
    read context "SELECT v FROM m WHERE (h='x' OR b<3) AND time>5 GROUP BY h,time(1m)".toList = .ok first :=
  Outcome.eq_ok_of_toOption (by decide +kernel)

theorem read_second :
    read context "SELECT v FROM m WHERE b<3 AND h='x' AND b<3 GROUP BY time(60s),h".toList = .ok second :=
  Outcome.eq_ok_of_toOption (by decide +kernel)

theorem comparisons_iff (c : Comparison) (hc : c.isOnTime = false) :
    c ∈ first.statement.comparisons ↔ c ∈ second.statement.comparisons := by
  have htime : c ≠ ⟨timeName, .gt, .ofExpr (.literal (.integer 5))⟩ := by
    rintro rfl
    cases hc
  have hfirst : first.statement.comparisons =
      atHost.comparisons ++ below.comparisons ++ [⟨timeName, .gt, .ofExpr (.literal (.integer 5))⟩] := rfl
  have hsecond : second.statement.comparisons = below.comparisons ++ atHost.comparisons ++ below.comparisons := rfl
  rw [hfirst, hsecond]
  simp only [List.mem_append, List.mem_singleton, htime, or_false]
  exact ⟨fun h => h.elim (fun h => .inl (.inr h)) .inr, fun h => h.elim Or.symm .inr⟩

end Spelled

theorem keys_canonical_spelled :
    Spelled.first.keyOf Spelled.context.catalog Spelled.answer =
        Spelled.second.keyOf Spelled.context.catalog Spelled.answer ∧
      Spelled.first.tableKeysOf Spelled.context.catalog Spelled.answer =
        Spelled.second.tableKeysOf Spelled.context.catalog Spelled.answer :=
  keys_canonical Spelled.read_first Spelled.read_second rfl Spelled.comparisons_iff (by decide) (by decide) _ _

end Request
end SeriesCache
