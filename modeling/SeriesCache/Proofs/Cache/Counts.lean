import SeriesCache.Proofs.Cache.Repeat
import SeriesCache.Proofs.Query.Window
import SeriesCache.Proofs.Series.Fragments
/-!
# Counts that are cached

A count over a window is a row at the start of the window.  It is cached, although what is counted over a part of the
window does not follow from it.  So a sequence of counts is answered as by the engine, whatever there is to count,
exactly if each window is the one before it or has no instant in common with it (`Counts.counted_iff`); over half of
the window before, no row may be found (`Counts.not_counted`).
-/
namespace SeriesCache.Counts

open Cache

variable {ε : Type} {c : Cache ε Memory} {points : List Int64} {w : Int64 × Int64}

/-! ## Queries for counts -/

def select (condition : Option Condition) : Select where
  fields := [⟨.call "count".toList [.name "v".toList none], none⟩]
  source := ⟨none, none, .name "m".toList⟩
  condition
  dimensions := []
  fill := none
  order := none
  limit := none
  offset := none
  seriesLimit := none
  seriesOffset := none
  zone := none

def query (w : Int64 × Int64) : Text := (select (some (Request.windowCondition w.1 w.2))).text

def request (w : Int64 × Int64) : Request where
  measurement := "m".toList
  fields := ["v".toList]
  wildcard := false
  aggregation := some "count".toList
  tagPredicates := []
  fieldPredicates := []
  window := .between w.1 w.2
  groupTags := []
  groupInterval := none
  statement := select (some (Request.windowCondition w.1 w.2))
  underOr := false
  regexDimension := false

theorem read_query (context : Context) (w : Int64 × Int64) : Request.read context (query w) = .ok (request w) := by
  have hread : Select.read (select none).text = .ok (select none) := Outcome.eq_ok_of_toOption (by decide +kernel)
  have hgroup : Request.groupTagsOf context "m".toList [] = [] := Text.distinctOn_nil id
  refine (Request.read_over (s := select none) rfl hread w.1 w.2).trans (congrArg Except.ok ?_)
  show { request w with groupTags := Request.groupTagsOf context "m".toList [] } = _
  rw [hgroup]
  rfl

def signature : Text := (select none).text

theorem asks_query (h : w.1 ≤ w.2) : c.Asks signature (query w) (request w) w.1 w.2 where
  read := read_query c.context w
  window := rfl
  signature := rfl
  ordered := h

/-! ## Counts -/

/-- A count as a row at an instant. -/
def row (first : Int64) (n : Nat) : Answer :=
  ⟨[⟨"m".toList, .empty, ["time".toList, "count".toList], [[.int64 first, .int64 (.ofNat n)]]⟩], none⟩

/-- How many of the points stand in the window, at its start, or no row if there are none. -/
def answer (points : List Int64) (w : Int64 × Int64) : Answer :=
  match points.countP fun t => w.1 ≤ t && t ≤ w.2 with
  | 0 => .empty
  | n => row w.1 n

theorem slice_row_of_mem {first : Int64} (n : Nat) (h : w.1 ≤ first ∧ first ≤ w.2) :
    (row first n).slice w.1 w.2 = row first n := by
  refine Answer.slice_eq_self (List.forall_mem_singleton.2 ⟨List.cons_ne_nil _ _, List.forall_mem_singleton.2 ?_⟩)
  exact Table.isWithin_iff.2 ⟨first, rfl, h⟩

theorem slice_row_of_not_mem {first : Int64} (n : Nat) (h : ¬ (w.1 ≤ first ∧ first ≤ w.2)) :
    (row first n).slice w.1 w.2 = .empty := by
  refine Answer.slice_eq_empty rfl fun m hm => ?_
  obtain ⟨t, ht, cells, hcells, hinstant⟩ := hm
  obtain rfl := List.mem_singleton.1 ht
  obtain rfl := List.mem_singleton.1 hcells
  cases hinstant
  exact h

/-! ## Counts that are stored -/

theorem columnsOf_row (catalog : Catalog) (w : Int64 × Int64) (first : Int64) (n : Nat) :
    (request w).columnsOf catalog (row first n) = [⟨"count".toList, .int64⟩] := rfl

/-- The key of a count, over any window. -/
def key : Key := ⟨[⟨"m".toList, []⟩], [⟨"count".toList, .int64⟩], [], some "count".toList, none⟩

theorem keyOf_row (catalog : Catalog) (w : Int64 × Int64) (first : Int64) (n : Nat) :
    (request w).keyOf catalog (row first n) = key := by
  have hsegments : (request w).segmentsOf (row first n) = [⟨"m".toList, []⟩] := by
    show [Segment.mk "m".toList (Text.distinctOn (Assignment.text "m".toList) [])] = _
    rw [Text.distinctOn_nil]
  have hconstraints : (request w).constraintsOf = [] := Text.distinctOn_nil Constraint.text
  rw [Request.keyOf, hsegments, columnsOf_row, hconstraints]
  rfl

theorem tableKeysOf_row (catalog : Catalog) (w : Int64 × Int64) (first : Int64) (n : Nat) :
    (request w).tableKeysOf catalog (row first n) = [key] := by
  rw [Request.tableKeysOf_eq rfl, keyOf_row]
  show [key.ofSegment (Segment.mk "m".toList (Text.distinctOn (Assignment.text "m".toList) []))] = _
  rw [Text.distinctOn_nil]
  rfl

theorem keyOf_empty (catalog : Catalog) (w : Int64 × Int64) : ∃ type : CellType,
    (request w).keyOf catalog .empty = ⟨[], [⟨"v".toList, type⟩], [], some "count".toList, none⟩ := by
  have hconstraints : (request w).constraintsOf = [] := Text.distinctOn_nil Constraint.text
  refine ⟨(catalog.fieldType? "m".toList "v".toList).getD .float64, ?_⟩
  rw [Request.keyOf, hconstraints]
  rfl

/-- Every key of a count takes at most so many bytes. -/
theorem size_keyOf (catalog : Catalog) (points : List Int64) (w v : Int64 × Int64) :
    Utf8.size ((request w).keyOf catalog (answer points v)).text ≤ 48 := by
  rw [answer]
  split
  · obtain ⟨type, htype⟩ := keyOf_empty catalog w
    rw [htype]
    cases type <;> decide
  · rw [keyOf_row]
    decide

theorem regular_answer (points : List Int64) (h : w.1 ≤ w.2) : (answer points w).Regular (request w) w.1 w.2 := by
  rw [answer]
  split
  · exact ⟨rfl, List.Pairwise.nil, nofun, nofun, nofun, nofun, nofun, nofun, nofun⟩
  · exact {
      error := rfl
      ascending := List.pairwise_singleton _ _
      name := List.forall_mem_singleton.2 (List.cons_ne_nil _ _)
      tags := List.forall_mem_singleton.2 nofun
      time := List.forall_mem_singleton.2 rfl
      columns := List.forall_mem_singleton.2 rfl
      rows := List.forall_mem_singleton.2 (List.cons_ne_nil _ _)
      instants := List.forall_mem_singleton.2 (List.forall_mem_singleton.2 ⟨w.1, _, rfl, Int64.le_refl _, h⟩)
      texts := List.forall_mem_singleton.2 (List.forall_mem_singleton.2 fun s hs => by simp at hs) }

theorem storedAnswer_answer (layout : TextLayout) (catalog : Catalog) (points : List Int64) (w v : Int64 × Int64) :
    Payload.storedAnswer layout (request w) catalog (answer points v) = answer points v := by
  rw [answer]
  split <;> rfl

theorem exists_tableBytes (layout : TextLayout) (first k : Int64) : ∃ bytes, Payload.tableBytes layout
    ⟨"m".toList, .empty, ["time".toList, "count".toList], [[.int64 first, .int64 k]]⟩ key = .ok bytes := by
  have hrows : [[Cell.int64 first, Cell.int64 k]].mapM (Payload.rowBytes layout key.columnTypes) =
      .ok [Payload.int64Bytes first ++ [Payload.int64Bytes k].flatten ++ Payload.lineEnd] := rfl
  have hlength :
      ([Payload.int64Bytes first ++ [Payload.int64Bytes k].flatten ++ Payload.lineEnd].flatten).length = 18 := by
    simp [Payload.length_int64Bytes, Payload.lineEnd]
  have hcount : ¬ ["time".toList, "count".toList].length ≠ key.columnTypes.length := by decide
  rw [Payload.tableBytes]
  simp only [if_neg hcount, hrows, bind, Except.bind]
  rw [if_neg (by rw [hlength]; decide)]
  exact ⟨_, rfl⟩

theorem exists_encode (layout : TextLayout) (catalog : Catalog) (points : List Int64) (w v : Int64 × Int64) :
    ∃ payload, Payload.encode layout (answer points v) ((request w).tableKeysOf catalog (answer points v)) =
      .ok payload := by
  rw [answer]
  split
  · exact ⟨Payload.emptyAnswer, rfl⟩
  · rw [tableKeysOf_row]
    obtain ⟨bytes, hbytes⟩ := exists_tableBytes layout v.1 (.ofNat (points.countP fun t => v.1 ≤ t && t ≤ v.2))
    exact ⟨_, Outcome.bind_eq_ok_iff.2 ⟨_, Outcome.mapM_cons_eq_ok_iff.2 ⟨bytes, [], hbytes, rfl, rfl⟩, rfl⟩⟩

/-- **Every count is kept** if keys may be so long, and reads back as it was. -/
theorem kept_answer (hkey : 48 ≤ c.settings.keyLimit) {keyLimit : Option Nat} (hlimit : ∀ n ∈ keyLimit, 48 ≤ n)
    (points : List Int64) (h : w.1 ≤ w.2) : ∃ key payload b,
      c.entryOf (request w) (answer points w) = .ok (key, payload) ∧ refuses keyLimit key = false ∧
      Payload.decode c.settings.textLayout payload = .ok b ∧ b.restrictTags [] = answer points w := by
  obtain ⟨payload, hpayload⟩ := exists_encode c.settings.textLayout c.context.catalog points w w
  have hsize := size_keyOf c.context.catalog points w w
  have htext : ((request w).keyOf c.context.catalog (answer points w)).textWithin c.settings.keyLimit =
      .ok ((request w).keyOf c.context.catalog (answer points w)).text :=
    if_neg (Nat.not_lt.2 (Nat.le_trans hsize hkey))
  have hentry : c.entryOf (request w) (answer points w) =
      .ok (((request w).keyOf c.context.catalog (answer points w)).text, payload) := by
    rw [entryOf, htext, hpayload]
    rfl
  obtain ⟨b, hdecode, hb⟩ := decode_of_regular (regular_answer points h) hentry
  refine ⟨_, payload, b, hentry, ?_, hdecode, hb.trans (storedAnswer_answer _ _ points w w)⟩
  cases keyLimit with
  | none => rfl
  | some n => exact decide_eq_false (Nat.not_lt.2 (Nat.le_trans hsize (hlimit n rfl)))

/-! ## Single queries -/

/-- The engine counts the points: it answers every query with the count over its window. -/
def Serves (c : Cache ε Memory) (points : List Int64) : Prop :=
  ∀ w : Int64 × Int64, w.1 ≤ w.2 →
    ∀ e, (c.engine (query w) c.settings.database c.settings.queryPrecision e).1 = .ok (answer points w)

/-- The entry for counts reads back as the count over a window, and the store takes keys that are as long as those
of counts. -/
structure Shows (c : Cache ε Memory) (points : List Int64) (w : Int64 × Int64) (s : CacheState ε Memory) : Prop where
  entry : ∃ key e b, s.view signature = some (key, some e) ∧ e.first = w.1 ∧ e.last = w.2 ∧
    Payload.decode c.settings.textLayout e.payload = .ok b ∧ b.restrictTags [] = answer points w
  limit : ∀ n ∈ s.store.keyLimit, 48 ≤ n

variable (hstore : c.store = Memory.store) (hkey : 48 ≤ c.settings.keyLimit) (hserves : Serves c points)
  {s : CacheState ε Memory} {v : Int64 × Int64}

theorem error_answer (points : List Int64) (w : Int64 × Int64) : (answer points w).error = none := by
  rw [answer]
  split <;> rfl

include hstore hkey hserves in
/-- **A count over a window apart from the entry** is the engine's, and is there afterwards. -/
theorem ask_apart (hw : w.1 ≤ w.2) (hlimit : ∀ n ∈ s.store.keyLimit, 48 ≤ n)
    (hapart : ∀ key e, s.view signature = some (key, some e) → e.overlaps w.1 w.2 = false) :
    (c.query (query w) s).1 = .ok (answer points w) ∧ Shows c points w (c.query (query w) s).2 := by
  obtain ⟨e, he⟩ := executeAndKeep_of_ok (hserves w hw) (error_answer points w) (r := request w) w.1 w.2 s
  obtain ⟨key, payload, b, hentry, hshort, hdecode, hb⟩ := kept_answer hkey hlimit points hw
  have hview := view_keep hstore (s := { s with engine := e }) hentry hshort w.1 w.2
  rw [(asks_query hw).query_of_apart hstore hapart, he]
  refine ⟨rfl, ?_⟩
  simp only
  refine ⟨⟨key, _, b, hview, rfl, rfl, hdecode, hb⟩, ?_⟩
  rw [keyLimit_keep hstore]
  exact hlimit

include hstore in
/-- The same query again finds what is there. -/
theorem ask_again (hw : w.1 ≤ w.2) (hs : Shows c points w s) : c.query (query w) s = (.ok (answer points w), s) := by
  obtain ⟨key, e, b, hview, hfirst, hlast, hdecode, hb⟩ := hs.entry
  have hb : b.restrictTags (request w).groupTags = answer points w := hb
  have hslice : (answer points w).slice w.1 w.2 = answer points w := by
    rw [← storedAnswer_answer .counted .empty points w w]
    exact slice_storedAnswer (regular_answer points hw)
  rw [(asks_query hw).query_of_inside hstore hview (hfirst ▸ Int64.le_refl _) (hlast ▸ Int64.le_refl _) hdecode, hb,
    hslice]

/-! ## Runs -/

/-- The queries over windows are answered one after the other with the counts over them. -/
def Counted (c : Cache ε Memory) (points : List Int64) : List (Int64 × Int64) → CacheState ε Memory → Prop
  | [], _ => True
  | w :: windows, s =>
    (c.query (query w) s).1 = .ok (answer points w) ∧ Counted c points windows (c.query (query w) s).2

/-- The windows are one, or have no instant in common. -/
def Apart (v w : Int64 × Int64) : Prop := v = w ∨ v.2 < w.1 ∨ w.2 < v.1

instance : DecidableRel Apart := fun v w => inferInstanceAs (Decidable (v = w ∨ v.2 < w.1 ∨ w.2 < v.1))

include hstore hkey hserves in
/-- **After a window, one apart from it** is answered with its count, and shown in its place. -/
theorem Shows.ask (hs : Shows c points v s) (hw : w.1 ≤ w.2) (hapart : Apart v w) :
    (c.query (query w) s).1 = .ok (answer points w) ∧ Shows c points w (c.query (query w) s).2 := by
  rcases hapart with rfl | hapart
  · rw [ask_again hstore hw hs]
    exact ⟨rfl, hs⟩
  · refine ask_apart hstore hkey hserves hw hs.limit fun key e hview => ?_
    obtain ⟨key', e', b, hview', hfirst, hlast, -⟩ := hs.entry
    rw [hview] at hview'
    cases hview'
    refine Bool.eq_false_iff.2 fun hover => ?_
    obtain ⟨hle, hge⟩ := overlaps_iff.1 hover
    rw [hfirst] at hle
    rw [hlast] at hge
    rcases hapart with hbefore | hbehind
    · exact Int64.not_le.2 hbefore hge
    · exact Int64.not_le.2 hbehind hle

include hstore hkey hserves in
/-- **Windows of which none meets the next** are all answered with their counts. -/
theorem Shows.counted : ∀ {windows : List (Int64 × Int64)} {v : Int64 × Int64} {s : CacheState ε Memory},
    Shows c points v s → (∀ w ∈ windows, w.1 ≤ w.2) → (v :: windows).IsChain Apart → Counted c points windows s
  | [], _, _, _, _, _ => trivial
  | w :: windows, v, s, hs, hordered, hchain => by
    obtain ⟨hapart, hchain⟩ := List.isChain_cons_cons.1 hchain
    obtain ⟨hw, hordered⟩ := List.forall_mem_cons.1 hordered
    obtain ⟨hanswer, hshows⟩ := hs.ask hstore hkey hserves hw hapart
    exact ⟨hanswer, hshows.counted hordered hchain⟩

/-! ## Windows that meet -/

theorem answer_of_mem {t : Int64} (h : w.1 ≤ t ∧ t ≤ w.2) : answer [t] w = row w.1 1 := by
  rw [answer, List.countP_singleton, if_pos (by simpa using h)]
  rfl

theorem answer_of_not_mem {t : Int64} (h : ¬ (w.1 ≤ t ∧ t ≤ w.2)) : answer [t] w = .empty := by
  rw [answer, List.countP_singleton, if_neg (by simpa using h)]
  rfl

theorem row_inj {first first' : Int64} {n n' : Nat} (h : row first n = row first' n') : first = first' := by
  simp only [row, Answer.mk.injEq, List.cons.injEq, Table.mk.injEq, Cell.int64.injEq] at h
  exact h.1.1.2.2.2.1.1

theorem row_ne_empty (first : Int64) (n : Nat) : row first n ≠ .empty := nofun

include hstore hserves in
/-- A window with a part that is missing is answered from the one fragment that has a row. -/
theorem ask_joined (hs : Shows c points v s) (hw : w.1 ≤ w.2) (hfirst : v.1 ≤ w.2) (hlast : w.1 ≤ v.2)
    (hparts : remainders w.1 w.2 v.1 v.2 ≠ []) {f : Fragment}
    (hf : (Fragment.mk v.1 v.2 (answer points v) :: (remainders w.1 w.2 v.1 v.2).map fun p =>
      Fragment.mk p.1 p.2 (answer points p)).filter (fun f => !f.answer.isEmpty) = [f]) :
    (c.query (query w) s).1 = .ok (f.answer.slice w.1 w.2) := by
  obtain ⟨key, ⟨payload, _, _, tables⟩, b, hview, rfl, rfl, hdecode, hb⟩ := hs.entry
  have hfetch : ∀ p ∈ remainders w.1 w.2 v.1 v.2, (answer points p).error = none ∧ ∀ e,
      (c.engine ((request w).inWindow p.1 p.2) c.settings.database c.settings.queryPrecision e).1 =
        .ok (answer points p) := fun p hp => ⟨error_answer points p, hserves p (remainders_ordered hp)⟩
  obtain ⟨e, he⟩ := fetch_of_ok hfetch s
  have hb : b.restrictTags (request w).groupTags = answer points v := hb
  rw [(asks_query hw).query_of_overlaps hstore hview (overlaps_iff.2 ⟨hfirst, hlast⟩) hdecode, hb]
  exact complete_fst hparts he (Fragment.joinAll_of_filter hf)

include hstore hserves in
/-- **A window that meets the one shown** is answered with the count over that one, if all points are in there. -/
theorem ask_meeting {t : Int64} (hpoints : points = [t]) (hs : Shows c points v s) (hw : w.1 ≤ w.2)
    (hfirst : v.1 ≤ w.2) (hlast : w.1 ≤ v.2) (ht : v.1 ≤ t ∧ t ≤ v.2) :
    (c.query (query w) s).1 = .ok ((row v.1 1).slice w.1 w.2) := by
  subst hpoints
  rw [← answer_of_mem ht]
  by_cases hparts : remainders w.1 w.2 v.1 v.2 = []
  · obtain ⟨key, e, b, hview, hefirst, helast, hdecode, hb⟩ := hs.entry
    have hb : b.restrictTags (request w).groupTags = answer [t] v := hb
    obtain ⟨hle, hge⟩ := remainders_eq_nil_iff.1 hparts
    rw [(asks_query hw).query_of_inside hstore hview (hefirst ▸ hle) (helast ▸ hge) hdecode, hb]
  · refine ask_joined hstore hserves hs hw hfirst hlast hparts (f := ⟨v.1, v.2, answer [t] v⟩) ?_
    have hfresh : ((remainders w.1 w.2 v.1 v.2).map fun p => Fragment.mk p.1 p.2 (answer [t] p)).filter
        (fun f => !f.answer.isEmpty) = [] := by
      refine List.filter_eq_nil_iff.2 fun f hf => ?_
      obtain ⟨p, hp, rfl⟩ := List.mem_map.1 hf
      have hout : ¬ (p.1 ≤ t ∧ t ≤ p.2) := fun hin => by
        rcases remainders_apart hp with hbefore | hbehind
        · exact Int64.not_le.2 hbefore (Int64.le_trans ht.1 hin.2)
        · exact Int64.not_le.2 hbehind (Int64.le_trans hin.1 ht.2)
      rw [answer_of_not_mem hout]
      exact Bool.not_eq_true _ ▸ rfl
    rw [List.filter_cons_of_pos (by rw [answer_of_mem ht]; rfl), hfresh]

include hstore hserves in
/-- A window that goes on behind the one shown is answered with a count from there, if the only point is its end. -/
theorem ask_longer (hpoints : points = [w.2]) (hs : Shows c points v s) (hw : w.1 ≤ w.2) (hstart : v.1 ≤ w.1)
    (hmeet : w.1 ≤ v.2) (hlonger : v.2 < w.2) : (c.query (query w) s).1 = .ok (row (v.2 + 1) 1) := by
  subst hpoints
  have hnext : v.2 + 1 ≤ w.2 := by
    rw [Int64.le_iff_toInt_le, Signed.toInt_succ hlonger]
    exact Int64.lt_iff_toInt_lt.1 hlonger
  have hbehind : w.1 ≤ v.2 + 1 := by
    rw [Int64.le_iff_toInt_le, Signed.toInt_succ hlonger]
    exact Int.le_add_one (Int64.le_iff_toInt_le.1 hmeet)
  have hparts : remainders w.1 w.2 v.1 v.2 = [(v.2 + 1, w.2)] := by
    rw [remainders, if_neg (Int64.not_lt.2 hstart), if_pos hlonger, List.nil_append]
  have hshown : answer [w.2] v = .empty := answer_of_not_mem fun h => Int64.not_le.2 hlonger h.2
  have hpart : answer [w.2] (v.2 + 1, w.2) = row (v.2 + 1) 1 := answer_of_mem ⟨hnext, Int64.le_refl _⟩
  have hanswer := ask_joined hstore hserves hs hw (Int64.le_trans hstart hw) hmeet (hparts ▸ List.cons_ne_nil _ _)
    (f := ⟨v.2 + 1, w.2, row (v.2 + 1) 1⟩) (by rw [hparts, hshown, List.map_singleton, hpart]; rfl)
  rw [hanswer, slice_row_of_mem 1 ⟨hbehind, hnext⟩]

/-- **For windows that meet there are points** for which the second is not answered with its count. -/
theorem exists_points (hv : v.1 ≤ v.2) (hw : w.1 ≤ w.2) (h : ¬ Apart v w) : ∃ points : List Int64,
    ∀ {c : Cache ε Memory} {s : CacheState ε Memory}, c.store = Memory.store → Serves c points → Shows c points v s →
      (c.query (query w) s).1 ≠ .ok (answer points w) := by
  obtain ⟨hne, hmeet⟩ := not_or.1 h
  obtain ⟨hlast, hfirst⟩ := not_or.1 hmeet
  rw [Int64.not_lt] at hfirst hlast
  by_cases hstart : w.1 = v.1
  · rcases Int64.lt_or_le w.2 v.2 with hlt | hle
    · -- The last instant shown is not in the other window, but the row for it is.
      refine ⟨[v.2], fun hstore hserves hs heq => ?_⟩
      have hin : w.1 ≤ v.1 ∧ v.1 ≤ w.2 := ⟨hstart ▸ Int64.le_refl _, hfirst⟩
      have hout : ¬ (w.1 ≤ v.2 ∧ v.2 ≤ w.2) := fun h => Int64.not_le.2 hlt h.2
      rw [ask_meeting hstore hserves rfl hs hw hfirst hlast ⟨hv, Int64.le_refl _⟩, slice_row_of_mem 1 hin,
        answer_of_not_mem hout] at heq
      exact row_ne_empty _ _ (Except.ok.inj heq)
    · -- The last instant of the other window is behind the one shown, and is counted from there.
      have hlonger : v.2 < w.2 := Int64.lt_of_le_of_ne hle fun hend => hne (Prod.ext hstart.symm hend)
      refine ⟨[w.2], fun hstore hserves hs heq => ?_⟩
      rw [ask_longer hstore hserves rfl hs hw (hstart ▸ Int64.le_refl _) hlast hlonger,
        answer_of_mem ⟨hw, Int64.le_refl _⟩] at heq
      have hnext := congrArg Int64.toInt (row_inj (Except.ok.inj heq))
      rw [Signed.toInt_succ hlonger] at hnext
      have := Int64.le_iff_toInt_le.1 hlast
      omega
  · rcases Int64.lt_or_le w.1 v.1 with hlt | hle
    · -- The first instant shown is in both windows, and its row is not at the start of the other one.
      refine ⟨[v.1], fun hstore hserves hs heq => ?_⟩
      have hin : w.1 ≤ v.1 ∧ v.1 ≤ w.2 := ⟨Int64.le_of_lt hlt, hfirst⟩
      rw [ask_meeting hstore hserves rfl hs hw hfirst hlast ⟨Int64.le_refl _, hv⟩, slice_row_of_mem 1 hin,
        answer_of_mem hin] at heq
      exact hstart (row_inj (Except.ok.inj heq)).symm
    · -- The first instant of the other window is in both, and the row for it is before that.
      refine ⟨[w.1], fun hstore hserves hs heq => ?_⟩
      have hout : ¬ (w.1 ≤ v.1 ∧ v.1 ≤ w.2) := fun h => hstart (Int64.le_antisymm h.1 hle)
      rw [ask_meeting hstore hserves rfl hs hw hfirst hlast ⟨hle, hlast⟩, slice_row_of_not_mem 1 hout,
        answer_of_mem ⟨Int64.le_refl _, hw⟩] at heq
      exact row_ne_empty _ _ (Except.ok.inj heq).symm

/-! ## All points -/

/-- Where one window meets the next, there are points for which the queries are not all answered with counts. -/
theorem exists_not_counted : ∀ {windows : List (Int64 × Int64)} {v : Int64 × Int64}, v.1 ≤ v.2 →
    (∀ w ∈ windows, w.1 ≤ w.2) → ¬ (v :: windows).IsChain Apart → ∃ points : List Int64,
      ∀ {c : Cache ε Memory} {s : CacheState ε Memory}, c.store = Memory.store → 48 ≤ c.settings.keyLimit →
        Serves c points → Shows c points v s → ¬ Counted c points windows s
  | [], v, _, _, hchain => absurd (List.IsChain.singleton v) hchain
  | w :: windows, v, hv, hordered, hchain => by
    obtain ⟨hw, hordered⟩ := List.forall_mem_cons.1 hordered
    by_cases hapart : Apart v w
    · have hrest : ¬ (w :: windows).IsChain Apart := fun h => hchain (List.isChain_cons_cons.2 ⟨hapart, h⟩)
      obtain ⟨points, hpoints⟩ := exists_not_counted hw hordered hrest
      refine ⟨points, fun hstore hkey hserves hs hcounted => ?_⟩
      exact hpoints hstore hkey hserves (hs.ask hstore hkey hserves hw hapart).2 hcounted.2
    · obtain ⟨points, hpoints⟩ := @exists_points ε w v hv hw hapart
      exact ⟨points, fun hstore _ hserves hs hcounted => hpoints hstore hserves hs hcounted.1⟩

/-- An engine that reads its queries and counts. -/
def engine (points : List Int64) : Engine ε := fun q _ _ e =>
  match (Request.read ⟨.empty, 0⟩ q).toOption.bind cacheableWindow? with
  | some w => (.ok (answer points w), e)
  | none => (.ok .empty, e)

theorem serves_engine {c : Cache ε Memory} (points : List Int64) (h : c.engine = engine points) : Serves c points := by
  intro w _ e
  rw [h, engine, read_query]
  rfl

/-- **When counts are answered like the engine does.**  Whatever points there are to count, every query of a sequence
is answered with the count of the engine exactly if each window is the one before it or has no instant in common with
it. -/
theorem counted_iff (e : ε) (context : Context) {settings : Settings} (hkey : 48 ≤ settings.keyLimit)
    {keyLimit : Option Nat} (hlimit : ∀ n ∈ keyLimit, 48 ≤ n) {windows : List (Int64 × Int64)}
    (hordered : ∀ w ∈ windows, w.1 ≤ w.2) :
    (∀ (points : List Int64) (engine : Engine ε),
      let c : Cache ε Memory := ⟨engine, Memory.store, context, settings⟩
      Serves c points → Counted c points windows (start e keyLimit)) ↔ windows.IsChain Apart := by
  cases windows with
  | nil => exact iff_of_true (fun _ _ _ => trivial) .nil
  | cons w windows =>
    obtain ⟨hw, hordered⟩ := List.forall_mem_cons.1 hordered
    have hfirst {c : Cache ε Memory} (hstore : c.store = Memory.store) (hkey : 48 ≤ c.settings.keyLimit)
        {points : List Int64} (hserves : Serves c points) :=
      ask_apart hstore hkey hserves (s := start e keyLimit) hw hlimit nofun
    constructor
    · intro hcounted
      by_contra hchain
      obtain ⟨points, hpoints⟩ := @exists_not_counted ε windows w hw hordered hchain
      have hserves : Serves (⟨engine points, Memory.store, context, settings⟩ : Cache ε Memory) points :=
        serves_engine points rfl
      exact hpoints rfl hkey hserves (hfirst rfl hkey hserves).2 (hcounted points (engine points) hserves).2
    · intro hchain points engine c hserves
      obtain ⟨hanswer, hshows⟩ := hfirst rfl hkey hserves
      exact ⟨hanswer, hshows.counted rfl hkey hserves hordered hchain⟩

theorem counted_iff_again :
    let c : Cache Unit Memory := ⟨engine [3, 7], Memory.store, ⟨.empty, 0⟩, .ofDatabase "db".toList⟩
    Counted c [3, 7] [(0, 10), (0, 10), (20, 30)] (start () none) := by
  have hordered : ∀ w ∈ [((0 : Int64), (10 : Int64)), (0, 10), (20, 30)], w.1 ≤ w.2 :=
    List.forall_mem_cons.2 ⟨by decide, List.forall_mem_cons.2 ⟨by decide, List.forall_mem_singleton.2 (by decide)⟩⟩
  exact (counted_iff () ⟨.empty, 0⟩ (by decide) (by decide) hordered).2 (by decide) [3, 7] (engine [3, 7])
    (serves_engine [3, 7] rfl)

/-- **A count over half of a window** is not found in the count over all of it: of two points one is in the second
half, but their row stands at the start of the first one. -/
theorem not_counted :
    let c : Cache Unit Memory := ⟨engine [3, 7], Memory.store, ⟨.empty, 0⟩, .ofDatabase "db".toList⟩
    let s := (c.query (query (0, 10)) (start () none)).2
    query (5, 10) = "SELECT count(v) FROM m WHERE time >= 5 AND time <= 10".toList ∧ Serves c [3, 7] ∧
    answer [3, 7] (5, 10) = row 5 1 ∧ (c.query (query (5, 10)) s).1 = .ok .empty ∧
    ¬ Counted c [3, 7] [(0, 10), (5, 10)] (start () none) := by
  intro c s
  have hanswer : (c.query (query (5, 10)) s).1 = .ok .empty := Outcome.eq_ok_of_toOption (by decide +kernel)
  have hcount : answer [3, 7] (5, 10) = row 5 1 := by decide +kernel
  refine ⟨by decide +kernel, serves_engine [3, 7] rfl, hcount, hanswer, fun hcounted => ?_⟩
  have hsecond : (c.query (query (5, 10)) s).1 = .ok (answer [3, 7] (5, 10)) := hcounted.2.1
  rw [hanswer, hcount] at hsecond
  exact row_ne_empty 5 1 (Except.ok.inj hsecond).symm

end SeriesCache.Counts
