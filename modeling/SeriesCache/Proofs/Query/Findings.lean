import SeriesCache.Proofs.Outcome
import SeriesCache.Request
/-!
# What a condition tells a request

A walk over a condition visits its nodes from left to right (`Condition.walk_eq_foldlM`), and what is found on the way is
known node by node (`Findings.Records`).  Roles aside it depends on the comparisons alone: those on time bound the
window, each other one is a predicate, in the order of the text (`Findings.Tells`).  A request is read from a statement
exactly when every comparison on time has an instant, and is put together from the findings then
(`Request.ofSelect_eq_ok_iff`).
-/
namespace SeriesCache

/-! ## Nodes -/

namespace Condition

namespace Node

def comparison? : Node → Option Comparison
  | .comparison c _ _ => some c
  | .joined _ _ _ => none
  | .group _ => none

/-- The predicate that a node is, when it is a comparison that is not on time. -/
def predicate? : Node → Option Predicate
  | .comparison c role _ => if c.isOnTime then none else some (.ofComparison c role)
  | .joined _ _ _ => none
  | .group _ => none

/-- Whether the node is a comparison with an OR around it. -/
def isUnderOr : Node → Bool
  | .comparison _ _ underOr => underOr
  | .joined _ _ _ => false
  | .group _ => false

end Node

/-- The nodes of a condition hold its comparisons, in order. -/
theorem comparisons_nodesAt (c : Condition) (role : Role) (underOr : Bool) :
    (c.nodesAt role underOr).filterMap Node.comparison? = c.comparisons := by
  induction c generalizing role underOr with
  | comparison x => rfl
  | joined a op b iha ihb =>
    simp only [nodesAt, comparisons]
    rw [List.cons_append, List.filterMap_cons_none rfl, List.filterMap_append, iha, ihb]
  | group a ih =>
    simp only [nodesAt, comparisons]
    rw [List.filterMap_cons_none rfl, ih]

theorem walkAt_eq_foldlM {σ β : Type} (visit : σ → Node → Except β σ) (c : Condition) (role : Role) (underOr : Bool)
    (s : σ) : walkAt visit role underOr s c = (c.nodesAt role underOr).foldlM visit s := by
  induction c generalizing role underOr s with
  | comparison x => simp [walkAt, nodesAt]
  | joined a op b iha ihb => simp [walkAt, nodesAt, iha, ihb]
  | group a ih => simp [walkAt, nodesAt, ih]

/-- **A walk visits the nodes in order**, until one of them stops it. -/
theorem walk_eq_foldlM {σ β : Type} (visit : σ → Node → Except β σ) (c : Condition) (s : σ) :
    c.walk visit s = c.nodes.foldlM visit s := walkAt_eq_foldlM visit c .alone false s

end Condition

/-! ## Comparisons -/

/-- A predicate as it would be without a join around it. -/
def Predicate.alone (p : Predicate) : Predicate := { p with role := .alone }

namespace Comparison

/-- The operator and the instant of a comparison on time. -/
def bound? (now : Int64) (c : Comparison) : Option (Operator × Int64) :=
  if c.isOnTime then (c.operand.expr.instant? now).map (c.operator, ·) else none

/-- The predicate that a comparison is, when it is not on time. -/
def predicate? (c : Comparison) : Option Predicate :=
  if c.isOnTime then none else some (.ofComparison c .alone)

/-- A comparison on time has an instant on its right side. -/
def IsTimed (now : Int64) (c : Comparison) : Prop := c.isOnTime = true → ∃ t, c.operand.expr.instant? now = some t

end Comparison

@[simp] theorem Predicate.alone_ofComparison (c : Comparison) (role : Condition.Role) :
    (ofComparison c role).alone = ofComparison c .alone := rfl

namespace Condition

theorem Node.alone_predicate? (n : Node) :
    n.predicate?.map Predicate.alone = n.comparison?.bind Comparison.predicate? := by
  cases n with
  | joined a op b => rfl
  | group a => rfl
  | comparison c role underOr =>
    simp only [Node.predicate?, Node.comparison?, Comparison.predicate?, Option.bind_some]
    cases c.isOnTime <;> rfl

/-- Roles aside, the predicates of some nodes are those of their comparisons. -/
theorem map_alone_predicates (ns : List Node) : (ns.filterMap Node.predicate?).map Predicate.alone =
    (ns.filterMap Node.comparison?).filterMap Comparison.predicate? := by
  rw [List.map_filterMap, List.filterMap_filterMap]
  exact congrArg (List.filterMap · ns) (funext Node.alone_predicate?)

end Condition

/-! ## Findings -/

namespace Findings

open Condition (Node)

variable {context : Context} {measurement : Text} {f g h : Findings} {ns ms : List Node}

/-- What is found on the way over some nodes: their comparisons bound the window, or are predicates on tags or fields, in
order, and an OR around one of them is kept in mind. -/
structure Records (context : Context) (measurement : Text) (f : Findings) (ns : List Node) (g : Findings) : Prop where
  timed : ∀ c ∈ ns.filterMap Node.comparison?, c.IsTimed context.now
  window : g.window = ((ns.filterMap Node.comparison?).filterMap (Comparison.bound? context.now)).foldl
    (fun w b => w.restrict b.1 b.2) f.window
  tags : g.tagPredicates = f.tagPredicates ++
    (ns.filterMap Node.predicate?).filter fun p => context.catalog.isTag measurement p.name
  fields : g.fieldPredicates = f.fieldPredicates ++
    (ns.filterMap Node.predicate?).filter fun p => !context.catalog.isTag measurement p.name
  underOr : g.underOr = (f.underOr || ns.any Node.isUnderOr)

theorem Records.nil (f : Findings) : f.Records context measurement [] f := by
  constructor <;> simp

theorem Records.append (hns : f.Records context measurement ns g) (hms : g.Records context measurement ms h) :
    f.Records context measurement (ns ++ ms) h := by
  constructor
  · rw [List.filterMap_append]
    exact List.forall_mem_append.2 ⟨hns.timed, hms.timed⟩
  · rw [hms.window, hns.window, List.filterMap_append, List.filterMap_append, List.foldl_append]
  · rw [hms.tags, hns.tags, List.filterMap_append, List.filter_append, List.append_assoc]
  · rw [hms.fields, hns.fields, List.filterMap_append, List.filter_append, List.append_assoc]
  · rw [hms.underOr, hns.underOr, List.any_append, Bool.or_assoc]

/-- What one node adds. -/
theorem records_of_meet {n : Node} (hmeet : meet context measurement f n = .ok g) :
    f.Records context measurement [n] g := by
  cases n with
  | joined a op b =>
    cases hmeet
    exact ⟨List.forall_mem_nil _, rfl, (List.append_nil _).symm, (List.append_nil _).symm, (Bool.or_false _).symm⟩
  | group a =>
    cases hmeet
    exact ⟨List.forall_mem_nil _, rfl, (List.append_nil _).symm, (List.append_nil _).symm, (Bool.or_false _).symm⟩
  | comparison c role underOr =>
    simp only [meet] at hmeet
    by_cases htime : c.isOnTime = true
    · rw [if_pos htime] at hmeet
      split at hmeet
      · rename_i t ht
        cases hmeet
        constructor <;> simp [Node.comparison?, Node.predicate?, Node.isUnderOr, Comparison.IsTimed, Comparison.bound?,
          htime, ht]
      · cases hmeet
    · rw [if_neg htime] at hmeet
      have hname : (Predicate.ofComparison c role).name = c.name := rfl
      by_cases htag : context.catalog.isTag measurement c.name = true
      · rw [if_pos htag] at hmeet
        cases hmeet
        constructor <;> simp [Node.comparison?, Node.predicate?, Node.isUnderOr, Comparison.IsTimed, Comparison.bound?,
          htime, hname, htag]
      · rw [if_neg htag] at hmeet
        cases hmeet
        constructor <;> simp [Node.comparison?, Node.predicate?, Node.isUnderOr, Comparison.IsTimed, Comparison.bound?,
          htime, hname, htag]

theorem records_of_foldlM : ∀ {ns : List Node} {f g : Findings}, ns.foldlM (meet context measurement) f = .ok g →
    f.Records context measurement ns g
  | [], f, g, hfold => by
    cases hfold
    exact .nil f
  | n :: ns, f, g, hfold => by
    rw [List.foldlM_cons] at hfold
    obtain ⟨f', hf', hfold⟩ := Outcome.bind_eq_ok_iff.1 hfold
    exact (records_of_meet hf').append (records_of_foldlM hfold)

/-- The way goes on as long as comparisons on time have instants. -/
theorem exists_meet {n : Node} (hn : ∀ c ∈ n.comparison?, c.IsTimed context.now) (f : Findings) :
    ∃ g, meet context measurement f n = .ok g := by
  cases n with
  | joined a op b => exact ⟨f, rfl⟩
  | group a => exact ⟨f, rfl⟩
  | comparison c role underOr =>
    simp only [meet]
    by_cases htime : c.isOnTime = true
    · obtain ⟨t, ht⟩ := hn c rfl htime
      rw [if_pos htime, ht]
      exact ⟨_, rfl⟩
    · rw [if_neg htime]
      split
      · exact ⟨_, rfl⟩
      · exact ⟨_, rfl⟩

theorem exists_foldlM : ∀ {ns : List Node}, (∀ c ∈ ns.filterMap Node.comparison?, c.IsTimed context.now) →
    ∀ f : Findings, ∃ g, ns.foldlM (meet context measurement) f = .ok g
  | [], _, f => ⟨f, rfl⟩
  | n :: ns, hall, f => by
    have hn : ∃ g, meet context measurement f n = .ok g :=
      exists_meet (fun c hc => hall c (List.mem_filterMap.2 ⟨n, List.mem_cons_self, hc⟩)) f
    obtain ⟨f', hf'⟩ := hn
    have hns : ∀ c ∈ ns.filterMap Node.comparison?, c.IsTimed context.now := fun c hc => by
      obtain ⟨m, hm, hc⟩ := List.mem_filterMap.1 hc
      exact hall c (List.mem_filterMap.2 ⟨m, List.mem_cons_of_mem n hm, hc⟩)
    obtain ⟨g, hg⟩ := exists_foldlM hns f'
    refine ⟨g, ?_⟩
    rw [List.foldlM_cons]
    exact Outcome.bind_eq_ok_iff.2 ⟨f', hf', hg⟩

/-- What comparisons tell, the roles of predicates aside. -/
structure Tells (context : Context) (measurement : Text) (f : Findings) (cs : List Comparison) (g : Findings) :
    Prop where
  timed : ∀ c ∈ cs, c.IsTimed context.now
  window : g.window = (cs.filterMap (Comparison.bound? context.now)).foldl (fun w b => w.restrict b.1 b.2) f.window
  tags : g.tagPredicates.map Predicate.alone = f.tagPredicates.map Predicate.alone ++
    (cs.filterMap Comparison.predicate?).filter fun p => context.catalog.isTag measurement p.name
  fields : g.fieldPredicates.map Predicate.alone = f.fieldPredicates.map Predicate.alone ++
    (cs.filterMap Comparison.predicate?).filter fun p => !context.catalog.isTag measurement p.name

/-- The comparisons of the nodes tell all but the roles. -/
theorem Records.tells (hns : f.Records context measurement ns g) :
    f.Tells context measurement (ns.filterMap Node.comparison?) g := by
  refine ⟨hns.timed, hns.window, ?_, ?_⟩
  · rw [hns.tags, List.map_append, ← Condition.map_alone_predicates, List.filter_map]
    rfl
  · rw [hns.fields, List.map_append, ← Condition.map_alone_predicates, List.filter_map]
    rfl

end Findings

/-! ## Requests -/

/-- The comparisons of a statement's condition, none when it has no condition. -/
def Select.comparisons (s : Select) : List Comparison :=
  match s.condition with
  | none => []
  | some c => c.comparisons

theorem Findings.tells_of_ofCondition? {context : Context} {measurement : Text} {s : Select} {f : Findings}
    (h : ofCondition? context measurement s.condition = .ok f) :
    Findings.none.Tells context measurement s.comparisons f := by
  unfold Select.comparisons
  cases hcondition : s.condition with
  | none =>
    rw [hcondition] at h
    cases h
    exact (Records.nil _).tells
  | some c =>
    rw [hcondition, ofCondition?, Condition.walk_eq_foldlM] at h
    have htells := (records_of_foldlM h).tells
    rwa [Condition.nodes, Condition.comparisons_nodesAt] at htells

theorem Findings.exists_ofCondition? {context : Context} {measurement : Text} {s : Select}
    (h : ∀ c ∈ s.comparisons, c.IsTimed context.now) : ∃ f, ofCondition? context measurement s.condition = .ok f := by
  unfold Select.comparisons at h
  cases hcondition : s.condition with
  | none => exact ⟨_, rfl⟩
  | some c =>
    rw [hcondition] at h
    rw [ofCondition?, Condition.walk_eq_foldlM]
    refine exists_foldlM (fun d hd => h d ?_) _
    rwa [Condition.nodes, Condition.comparisons_nodesAt] at hd

namespace Request

/-- The request that a statement and the findings of its condition make. -/
def ofFindings (context : Context) (measurement : Text) (s : Select) (f : Findings) : Request where
  measurement := measurement
  fields := fieldNames (s.fields.flatMap fun f => f.expr.names)
  wildcard := s.fields.any fun f => f.expr.hasWildcard
  aggregation := aggregationOf s.fields
  tagPredicates := f.tagPredicates
  fieldPredicates := f.fieldPredicates
  window := f.window
  groupTags := groupTagsOf context measurement s.dimensions
  groupInterval := intervalOf s.dimensions
  statement := s
  underOr := f.underOr
  regexDimension := hasRegex s.dimensions

theorem ofSelect_eq_ok_iff {context : Context} {s : Select} {r : Request} : ofSelect context s = .ok r ↔
    ∃ measurement f, s.source.name = .name measurement ∧
      Findings.ofCondition? context measurement s.condition = .ok f ∧ r = ofFindings context measurement s f := by
  unfold ofSelect
  cases hname : s.source.name with
  | regex x =>
    constructor
    · intro h
      cases h
    · rintro ⟨_, _, h, -⟩
      cases h
  | name measurement =>
    constructor
    · intro h
      obtain ⟨f, hf, h⟩ := Outcome.bind_eq_ok_iff.1 h
      cases h
      exact ⟨measurement, f, rfl, hf, rfl⟩
    · rintro ⟨_, f, hsource, hf, rfl⟩
      cases hsource
      exact Outcome.bind_eq_ok_iff.2 ⟨f, hf, rfl⟩

/-- **A request is read from a query** exactly when the query reads as a statement that makes it. -/
theorem read_eq_ok_iff {context : Context} {q : Text} {r : Request} : read context q = .ok r ↔
    startsWithSelect q = true ∧ ∃ s measurement f, Select.read q = .ok s ∧ s.source.name = .name measurement ∧
      Findings.ofCondition? context measurement s.condition = .ok f ∧ r = ofFindings context measurement s f := by
  unfold read
  by_cases hstart : startsWithSelect q = true
  · rw [if_pos hstart]
    cases hselect : Select.read q with
    | error e => simp
    | ok s => simp [hstart, ofSelect_eq_ok_iff]
  · rw [if_neg hstart]
    simp [hstart]

end Request
end SeriesCache
