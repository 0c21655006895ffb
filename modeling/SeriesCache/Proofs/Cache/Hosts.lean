import SeriesCache.Proofs.Cache.Mirror
import SeriesCache.Proofs.Query.Window
/-!
# An engine that slices

An engine that reads its queries and answers them with slices mirrors every answer, here on the queries for a
field by host (`Hosts.mirrors`).  What makes it so is that such a query is read with every window as the request
for that window (`Hosts.read_query`).  The values of two hosts can be stored (`Hosts.storable_answer`).
-/
namespace SeriesCache

/-- An engine that answers every query with the slice over its window. -/
def Engine.slicing (context : Context) (a : Answer) : Engine Unit := fun q _ _ e =>
  match Request.read context q with
  | .error _ => (.error ⟨"not a query".toList⟩, e)
  | .ok r => match Cache.cacheableWindow? r with
    | none => (.ok a, e)
    | some (first, last) => (.ok (a.slice first last), e)

namespace Hosts

open Reader Cache

/-! ## Queries by host -/

/-- A statement that names its measurement, a field and a tag. -/
def select (condition : Option Condition) : Select where
  fields := [⟨.name "v".toList none, none⟩]
  source := ⟨none, none, .name "m".toList⟩
  condition
  dimensions := [.tag "host".toList]
  fill := none
  order := none
  limit := none
  offset := none
  seriesLimit := none
  seriesOffset := none
  zone := none

def query (first last : Int64) : Text := (select (some (Request.windowCondition first last))).text

def context : Context := ⟨(Catalog.empty.withTags "m".toList ["host".toList]).withField "m".toList "v".toList .int64, 0⟩

def request (first last : Int64) : Request where
  measurement := "m".toList
  fields := ["v".toList]
  wildcard := false
  aggregation := none
  tagPredicates := []
  fieldPredicates := []
  window := .between first last
  groupTags := ["host".toList]
  groupInterval := none
  statement := select (some (Request.windowCondition first last))
  underOr := false
  regexDimension := false

theorem read_query (first last : Int64) : Request.read context (query first last) = .ok (request first last) := by
  have hread : Select.read (select none).text = .ok (select none) := Outcome.eq_ok_of_toOption (by decide +kernel)
  have hgroup : Request.groupTagsOf context "m".toList [.tag "host".toList] = ["host".toList] := by decide +kernel
  refine (Request.read_over (s := select none) rfl hread first last).trans (congrArg Except.ok ?_)
  show { request first last with groupTags := Request.groupTagsOf context "m".toList [.tag "host".toList] } = _
  rw [hgroup]
  rfl

/-! ## The engine -/

def cache (a : Answer) : Cache Unit Memory :=
  ⟨Engine.slicing context a, Memory.store, context, .ofDatabase "db".toList⟩

def signature : Text := (select none).text

theorem poses_query (a : Answer) (first last : Int64) : (cache a).Poses signature (query first last)
    (request first last) first last where
  read := read_query first last
  window := rfl
  signature := rfl

theorem asks_query (a : Answer) {first last : Int64} (h : first ≤ last) : (cache a).Asks signature
    (query first last) (request first last) first last := ⟨poses_query a first last, h⟩

theorem slicing_of_poses {a : Answer} {signature q : Text} {r : Request} {first last : Int64}
    (h : (cache a).Poses signature q r first last) (database : Text) (precision : Precision) (e : Unit) :
    ((cache a).engine q database precision e).1 = .ok (a.slice first last) := by
  have hread : Request.read context q = .ok r := h.read
  show (Engine.slicing context a q database precision e).1 = _
  rw [Engine.slicing, hread]
  simp only [h.window]

theorem inWindow_eq {a : Answer} {q : Text} {r : Request} {first last : Int64}
    (h : (cache a).Poses signature q r first last) (first' last' : Int64) : r.inWindow first' last' = query first' last' := by
  have hquery := poses_query a 0 0
  exact Request.inWindow_eq_of_signature h.read hquery.read (isCacheable_of_window h.window)
    (isCacheable_of_window hquery.window) (h.signature.trans hquery.signature.symm) rfl first' last'

theorem mirrors (a : Answer) : (cache a).Mirrors signature a where
  whole h e := slicing_of_poses h.poses _ _ e
  part h first' last' _ e := by
    rw [inWindow_eq h.poses]
    exact slicing_of_poses (poses_query a first' last') _ _ e

/-! ## The answer -/

/-- The values of two hosts. -/
def answer : Answer where
  tables := [
    ⟨"m".toList, Dict.empty.insert "host".toList "a".toList, ["time".toList, "v".toList],
      [[.int64 10, .int64 1], [.int64 20, .int64 2]]⟩,
    ⟨"m".toList, Dict.empty.insert "host".toList "b".toList, ["time".toList, "v".toList],
      [[.int64 20, .int64 3], [.int64 30, .int64 4]]⟩]
  error := none

theorem orderly_answer : answer.Orderly where
  error := rfl
  ascending := by decide
  name := by decide
  columns := by decide
  tagged := .inr (by decide)
  timely := by
    refine List.forall_mem_cons.2 ⟨Table.timely_of_instants [10, 20] rfl (by decide), ?_⟩
    exact List.forall_mem_cons.2 ⟨Table.timely_of_instants [20, 30] rfl (by decide), List.forall_mem_nil _⟩

theorem parts_of_asks {a : Answer} {q : Text} {r : Request} {first last : Int64}
    (h : (cache a).Asks signature q r first last) :
    r.measurement = "m".toList ∧ r.aggregation = none ∧ r.groupTags = ["host".toList] := by
  have hquery := asks_query a (Int64.le_refl 0)
  obtain ⟨hfields, hmeasurement, -⟩ := Request.parts_eq_of_signature h.read hquery.read (isCacheable_of_window h.window)
    (isCacheable_of_window hquery.window) (h.signature.trans hquery.signature.symm)
  obtain ⟨-, -, -, -, haggregation⟩ := Request.of_read h.read
  refine ⟨hmeasurement, ?_, h.groupTags_eq hquery.poses⟩
  rw [haggregation, Request.aggregationOf_eq_none]
  rw [hfields]
  decide

theorem columnsOf_answer {q : Text} {r : Request} {first last first' last' : Int64}
    (h : (cache answer).Asks signature q r first last) (hne : (answer.slice first' last').tables ≠ []) :
    r.columnsOf (cache answer).context.catalog (answer.slice first' last') = [⟨"v".toList, .int64⟩] := by
  obtain ⟨hmeasurement, haggregation, -⟩ := parts_of_asks h
  have hall : ∀ t ∈ answer.tables, t.columns = ["time".toList, "v".toList] := by decide
  have hcolumns : (answer.slice first' last').columns = ["time".toList, "v".toList] := by
    obtain ⟨t, ts, htables⟩ := List.exists_cons_of_ne_nil hne
    have ht : t ∈ (answer.slice first' last').tables := htables ▸ List.mem_cons_self
    obtain ⟨⟨u, hu, rfl⟩, -⟩ := Answer.mem_slice.1 ht
    rw [Answer.columns, htables]
    exact hall u hu
  have htype : r.columnType context.catalog (answer.slice first' last') 0 "v".toList = .int64 := by
    rw [Request.columnType, Request.declaredType?, haggregation, hmeasurement]
    rfl
  rw [Request.columnsOf, if_neg (by simpa using hne), hcolumns]
  exact congrArg (fun type => [Column.mk "v".toList type]) htype

theorem storable_answer : (cache answer).Storable signature answer where
  orderly := orderly_answer
  name := by decide
  time := by decide
  tags h t ht k hk := by
    have hkeys : ∀ t ∈ answer.tables, ∀ k ∈ t.tags.keys, k ∈ ["host".toList] := by decide
    rw [(parts_of_asks h).2.2]
    exact hkeys t ht k hk
  cells {q r first last} h first' last' _ t ht row hrow := by
    have hrows : ∀ t ∈ answer.tables, ∀ row ∈ t.rows, ∃ n k : Int64, row = [.int64 n, .int64 k] := by
      simp [answer]
    obtain ⟨⟨u, hu, rfl⟩, -⟩ := Answer.mem_slice.1 ht
    obtain ⟨n, k, rfl⟩ := hrows u hu row (List.mem_filter.1 hrow).1
    have hcolumns : r.columnsOf (cache answer).context.catalog (answer.slice first' last') = [⟨"v".toList, .int64⟩] :=
      columnsOf_answer h (List.ne_nil_of_mem ht)
    rw [hcolumns]
    refine ⟨n, [.int64 k], rfl, fun i cell column hcell hcolumn => ?_⟩
    cases i with
    | zero =>
      cases hcell
      cases hcolumn
      exact ⟨rfl, fun s hs => by cases hs⟩
    | succ i => cases hcell

end Hosts
end SeriesCache
