import SeriesCache.Proofs.Cache.Remembered
/-!
# The same query twice

A query that can be cached and is put twice to an empty cache is answered the second time from what was stored
the first time: with the engine's answer, but for cells that their columns store as others (`Cache.query_again`).
A null comes back as the zero of its column, and a number of one kind as one of the other, so that a column with
a gap is not answered alike (`Cache.not_repeated`).
-/
namespace SeriesCache

/-- An answer to a request as an engine gives it.  It has no error.  Its tables are named, ascend by their tags,
have none but those grouped by and share their columns, of which the first is the time.  All of them have rows,
and these stand at integers in the window and have no text that is too long to be stored with its length. -/
structure Answer.Regular (r : Request) (first last : Int64) (a : Answer) : Prop where
  error : a.error = none
  ascending : a.tables.Pairwise fun t u => t.tagText < u.tagText
  name : ∀ t ∈ a.tables, t.name ≠ []
  tags : ∀ t ∈ a.tables, ∀ k ∈ t.tags.keys, k ∈ r.groupTags
  time : ∀ t ∈ a.tables, t.columns.head? = some "time".toList
  columns : ∀ t ∈ a.tables, t.columns = a.columns
  rows : ∀ t ∈ a.tables, t.rows ≠ []
  instants : ∀ t ∈ a.tables, ∀ row ∈ t.rows, ∃ n cells, row = .int64 n :: cells ∧ first ≤ n ∧ n ≤ last
  texts : ∀ t ∈ a.tables, ∀ row ∈ t.rows, ∀ s, .string s ∈ row → Utf8.size s ≤ 65535

/-! ## Cells in their columns -/

/-- A cell as a column of a type gives it back: null as the zero of the type, a number of one kind as one of the
other, and any other cell as it is. -/
def Cell.inColumn : CellType → Cell → Cell
  | .bool, .null => .bool false
  | .int64, .null => .int64 0
  | .float64, .null => .float64 .zero
  | .string, .null => .string []
  | .int64, .float64 x => .int64 x.toInt64
  | .float64, .int64 n => .float64 (.ofInt64 n)
  | _, cell => cell

/-- A row with each cell but the first as its column gives it back. -/
def Cell.inColumns (types : List CellType) : Row → Row
  | [] => []
  | time :: cells => time :: List.zipWith inColumn types cells

/-- The answer with its cells as their columns in its key give them back. -/
def Answer.inColumns (r : Request) (catalog : Catalog) (a : Answer) : Answer :=
  let types := (r.columnsOf catalog a).map Column.type
  { a with tables := a.tables.map fun t => { t with rows := t.rows.map (Cell.inColumns types) } }

theorem Cell.stored_eq_inColumn {layout : TextLayout} {type : CellType} {cell : Cell}
    (h : ∀ s, cell = .string s → layout.Fits s) : cell.stored layout type = cell.inColumn type := by
  cases type with
  | string =>
    cases cell with
    | string s => exact congrArg string (TextLayout.stored_of_fits (h s rfl))
    | _ => rfl
  | _ => cases cell <;> rfl

theorem zipWith_stored_eq_inColumn {layout : TextLayout} : ∀ {types : List CellType} {cells : List Cell},
    (∀ s, .string s ∈ cells → layout.Fits s) →
    List.zipWith (Cell.stored layout) types cells = List.zipWith Cell.inColumn types cells
  | [], _, _ => by rw [List.zipWith_nil_left, List.zipWith_nil_left]
  | _ :: _, [], _ => rfl
  | type :: types, cell :: cells, h => by
    have hcell : cell.stored layout type = cell.inColumn type :=
      Cell.stored_eq_inColumn fun s hs => h s (hs ▸ List.mem_cons_self)
    rw [List.zipWith_cons_cons, List.zipWith_cons_cons, hcell,
      zipWith_stored_eq_inColumn fun s hs => h s (List.mem_cons_of_mem cell hs)]

/-- **Of a regular answer nothing else is lost** when it is stored. -/
theorem Answer.Regular.storedAnswer_eq {r : Request} {catalog : Catalog} {first last : Int64} {a : Answer}
    (ha : a.Regular r first last) : Payload.storedAnswer .counted r catalog a = a.inColumns r catalog := by
  have hrow : ∀ t ∈ a.tables, ∀ row ∈ t.rows, ∀ types,
      Payload.storedRow .counted types row = Cell.inColumns types row := by
    intro t ht row hrow types
    obtain ⟨n, cells, rfl, -⟩ := ha.instants t ht row hrow
    have htexts : ∀ s, .string s ∈ cells → TextLayout.Fits .counted s := fun s hs =>
      ha.texts t ht _ hrow s (List.mem_cons_of_mem _ hs)
    rw [Payload.storedRow, zipWith_stored_eq_inColumn htexts]
    rfl
  have htable : ∀ t ∈ a.tables, ∀ types, t.rows.map (Payload.storedRow .counted types) =
      t.rows.map (Cell.inColumns types) := fun t ht types => List.map_congr_left fun row h => hrow t ht row h types
  rw [Payload.storedAnswer, Answer.inColumns, ha.error, List.map_congr_left fun t ht => by rw [htable t ht]]

namespace Cache

variable {ε : Type} {c : Cache ε Memory} {signature q : Text} {r : Request} {first last : Int64} {a : Answer}

/-! ## What is read back -/

/-- What is stored of a regular answer has rows at the same instants, so it has no others than those in the window. -/
theorem slice_storedAnswer {layout : TextLayout} {catalog : Catalog} (ha : a.Regular r first last) :
    (Payload.storedAnswer layout r catalog a).slice first last = Payload.storedAnswer layout r catalog a := by
  refine Answer.slice_eq_self fun u hu => ?_
  obtain ⟨t, ht, rfl⟩ := List.mem_map.1 hu
  refine ⟨fun hrows => ha.rows t ht (List.map_eq_nil_iff.1 hrows), fun row hrow => ?_⟩
  obtain ⟨_, hmem, rfl⟩ := List.mem_map.1 hrow
  obtain ⟨n, cells, rfl, hle, hge⟩ := ha.instants t ht _ hmem
  exact Table.isWithin_iff.2 ⟨n, rfl, hle, hge⟩

/-- **The entry of a regular answer** reads back as the answer with its cells as they are stored. -/
theorem decode_of_regular {key : Text} {payload : Bytes} (ha : a.Regular r first last)
    (h : c.entryOf r a = .ok (key, payload)) : ∃ b, Payload.decode c.settings.textLayout payload = .ok b ∧
      b.restrictTags r.groupTags = Payload.storedAnswer c.settings.textLayout r c.context.catalog a :=
  Payload.own_rows_read_back ha.rows ha.name ha.tags ha.time ha.columns ha.ascending (encode_of_entryOf h)

/-! ## The two queries -/

section Twice

variable (hstore : c.store = Memory.store) (hr : c.Asks signature q r first last)
  (hengine : ∀ e, (c.engine q c.settings.database c.settings.queryPrecision e).1 = .ok a)
  (ha : a.Regular r first last) {s : CacheState ε Memory} (hs : s.view signature = none)

include hstore hr hengine ha hs in
/-- A query of which nothing is remembered is answered by the engine, and its answer is stored if it can be. -/
theorem query_first : ∃ e, c.query q s = (.ok a, (c.keep r a first last { s with engine := e }).2) := by
  have hapart : ∀ key entry, s.view signature = some (key, some entry) → entry.overlaps first last = false :=
    fun key entry hview => absurd (hs.symm.trans hview) nofun
  rw [hr.query_of_apart hstore hapart]
  exact executeAndKeep_of_ok hengine ha.error first last s

include hstore hr hengine ha hs in
theorem query_second_of_keeps (hkeeps : c.Keeps s.store.keyLimit r a) : (c.query q (c.query q s).2).1 =
    .ok (Payload.storedAnswer c.settings.textLayout r c.context.catalog a) := by
  obtain ⟨e, hfirst⟩ := query_first hstore hr hengine ha hs
  obtain ⟨key, payload, hentry, hshort⟩ := hkeeps
  obtain ⟨b, hdecode, hb⟩ := decode_of_regular ha hentry
  have hview := view_keep hstore (s := { s with engine := e }) hentry hshort first last
  rw [hr.signature] at hview
  rw [hfirst, hr.query_of_inside hstore hview (Int64.le_refl _) (Int64.le_refl _) hdecode, hb, slice_storedAnswer ha]

include hstore hr hengine ha hs in
theorem query_second_of_not_keeps (hkeeps : ¬ c.Keeps s.store.keyLimit r a) :
    (c.query q (c.query q s).2).1 = .ok a := by
  obtain ⟨e, hfirst⟩ := query_first hstore hr hengine ha hs
  have hkeep := keep_of_not_keeps hstore (s := { s with engine := e }) hkeeps first last
  obtain ⟨e', hsecond⟩ := query_first hstore hr hengine ha (s := { s with engine := e }) hs
  rw [hfirst, hkeep, hsecond]

end Twice

/-- **A query that is put twice.**  Let the engine answer it with a regular answer.  The first time it is answered
with that; the second time, where it can be stored, with its cells as their columns give them back, and else with
the engine's answer again.  So both times are alike exactly if the answer is not stored or each of its cells is of
its column's type. -/
theorem query_again (hstore : c.store = Memory.store) (hlayout : c.settings.textLayout = .counted)
    (hr : c.Asks signature q r first last)
    (hengine : ∀ e, (c.engine q c.settings.database c.settings.queryPrecision e).1 = .ok a)
    (ha : a.Regular r first last) (e : ε) (keyLimit : Option Nat) :
    let once := c.query q (start e keyLimit)
    let again := c.query q once.2
    once.1 = .ok a ∧
    (c.Keeps keyLimit r a → again.1 = .ok (a.inColumns r c.context.catalog)) ∧
    (¬ c.Keeps keyLimit r a → again.1 = .ok a) ∧
    (again.1 = once.1 ↔ (c.Keeps keyLimit r a → a.Typed r c.context.catalog)) := by
  intro once again
  have hs : (start e keyLimit).view signature = none := rfl
  have honce : once.1 = .ok a := by
    obtain ⟨e', h⟩ := query_first hstore hr hengine ha hs
    exact congrArg Prod.fst h
  have hkept : c.Keeps keyLimit r a → again.1 = .ok (a.inColumns r c.context.catalog) := by
    rw [← ha.storedAnswer_eq, ← hlayout]
    exact query_second_of_keeps hstore hr hengine ha hs
  have hnot : ¬ c.Keeps keyLimit r a → again.1 = .ok a := query_second_of_not_keeps hstore hr hengine ha hs
  refine ⟨honce, hkept, hnot, ?_⟩
  by_cases hkeeps : c.Keeps keyLimit r a
  · obtain ⟨_, _, hentry, -⟩ := id hkeeps
    have hencode := encode_of_entryOf hentry
    rw [hlayout] at hencode
    rw [honce, hkept hkeeps, imp_iff_right hkeeps, Except.ok.injEq, ← ha.storedAnswer_eq]
    refine Payload.storedAnswer_eq_self_iff ha.error ha.rows (fun t ht row hrow => ?_) ha.texts hencode
    obtain ⟨n, cells, heq, -⟩ := ha.instants t ht row hrow
    exact ⟨n, cells, heq⟩
  · rw [honce, hnot hkeeps]
    exact iff_of_true rfl fun h => absurd h hkeeps

/-! ## A column with a gap -/

namespace Sparse

def query : Text := "SELECT v FROM m WHERE time >= 0 AND time <= 10".toList

/-- The second of two values is missing. -/
def answer : Answer :=
  ⟨[⟨"m".toList, .empty, ["time".toList, "v".toList],
    [[.int64 1, .float64 (.ofInt64 7)], [.int64 2, .null]]⟩], none⟩

def cache : Cache Unit Memory :=
  ⟨fun _ _ _ e => (.ok answer, e), Memory.store, ⟨.empty, 0⟩,
    { Settings.ofDatabase "db".toList with textLayout := .counted }⟩

def request : Request where
  measurement := "m".toList
  fields := ["v".toList]
  wildcard := false
  aggregation := none
  tagPredicates := []
  fieldPredicates := []
  window := .between 0 10
  groupTags := []
  groupInterval := none
  statement := ⟨[⟨.name "v".toList none, none⟩], ⟨none, none, .name "m".toList⟩,
    some (Request.windowCondition 0 10), [], none, none, none, none, none, none, none⟩
  underOr := false
  regexDimension := false

theorem asks_query : cache.Asks request.signature query request 0 10 where
  read := Outcome.eq_ok_of_toOption (by decide +kernel)
  window := rfl
  signature := rfl
  ordered := by decide

theorem regular_answer : answer.Regular request 0 10 where
  error := rfl
  ascending := List.pairwise_singleton _ _
  name := by decide
  tags := by decide
  time := by decide
  columns := by decide
  rows := by decide
  instants := by simp [answer]
  texts := by simp [answer]

theorem keeps_answer : cache.Keeps none request answer := by
  have hwritten : (cache.entryOf request answer).isOk = true := by decide +kernel
  cases h : cache.entryOf request answer with
  | error e =>
    rw [h] at hwritten
    cases hwritten
  | ok entry => exact ⟨entry.1, entry.2, h, rfl⟩

end Sparse

open Sparse in
theorem query_again_sparse : (cache.query Sparse.query (start () none)).1 = .ok answer ∧
    (cache.query Sparse.query (cache.query Sparse.query (start () none)).2).1 =
      .ok (answer.inColumns request .empty) := by
  obtain ⟨honce, hkept, -⟩ := query_again rfl rfl asks_query (fun _ => rfl) regular_answer () none
  exact ⟨honce, hkept keeps_answer⟩

open Sparse in
/-- **The gap is filled.**  The missing value is answered the first time as the engine does, and the second time
with zero. -/
theorem not_repeated :
    let once := cache.query Sparse.query (start () none)
    let again := cache.query Sparse.query once.2
    cache.Asks request.signature Sparse.query request 0 10 ∧ cache.settings.textLayout = .counted ∧
    answer.Regular request 0 10 ∧ (∀ t ∈ answer.tables, t.Timely) ∧
    (∀ e, (cache.engine Sparse.query cache.settings.database cache.settings.queryPrecision e).1 = .ok answer) ∧
    once.1 = .ok answer ∧ again.1 ≠ once.1 ∧
    again.1 = .ok ⟨[⟨"m".toList, .empty, ["time".toList, "v".toList],
      [[.int64 1, .float64 (.ofInt64 7)], [.int64 2, .float64 .zero]]⟩], none⟩ := by
  intro once again
  have honce : once.1 = .ok answer := Outcome.eq_ok_of_toOption (by decide +kernel)
  have hagain : again.1 = .ok ⟨[⟨"m".toList, .empty, ["time".toList, "v".toList],
      [[.int64 1, .float64 (.ofInt64 7)], [.int64 2, .float64 .zero]]⟩], none⟩ :=
    Outcome.eq_ok_of_toOption (by decide +kernel)
  have htimely : ∀ t ∈ answer.tables, t.Timely :=
    List.forall_mem_singleton.2 (Table.timely_of_instants [1, 2] rfl (by decide))
  refine ⟨asks_query, rfl, regular_answer, htimely, fun _ => rfl, honce, fun hsame => ?_, hagain⟩
  rw [honce, hagain, Except.ok.injEq] at hsame
  exact absurd hsame (by decide +kernel)

end Cache
end SeriesCache
