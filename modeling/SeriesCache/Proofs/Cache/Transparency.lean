import SeriesCache.Proofs.Cache.Hosts
import SeriesCache.Proofs.Cache.Remembered
import SeriesCache.Proofs.Series.Fragments
/-!
# A cache that cannot be told from its engine

Where the engine answers the queries of one signature with the slices of one answer, so does the cache, after
any run of such queries (`query_transparent`).  What carries the proof is that the entry of the signature
reads back as the slice over its window (`Cache.Holds`): whatever a step stores is such a slice again.
-/
namespace SeriesCache

variable {ε : Type}

namespace Cache

variable {c : Cache ε Memory}

/-! ## What is stored -/

variable {signature : Text} {a : Answer}

/-- The entry of the signature reads back, for all of its requests, as the slice over its window. -/
def Holds (c : Cache ε Memory) (signature : Text) (a : Answer) (s : CacheState ε Memory) : Prop :=
  ∀ key entry, s.view signature = some (key, some entry) → entry.first ≤ entry.last ∧
    ∃ b, Payload.decode c.settings.textLayout entry.payload = .ok b ∧
      ∀ {q r first last}, c.Asks signature q r first last →
        b.restrictTags r.groupTags = a.slice entry.first entry.last

/-- **A slice that is stored reads back** for every request of its signature. -/
theorem Storable.reads_back (hstorable : c.Storable signature a) {q : Text} {r : Request} {first last : Int64}
    (hr : c.Asks signature q r first last) {first' last' : Int64} (hle : first' ≤ last') {key : Text}
    {payload : Bytes} (h : c.entryOf r (a.slice first' last') = .ok (key, payload)) :
    ∃ b, Payload.decode c.settings.textLayout payload = .ok b ∧
      ∀ {q r first last}, c.Asks signature q r first last → b.restrictTags r.groupTags = a.slice first' last' := by
  have hencode := encode_of_entryOf h
  have hrows : ∀ t ∈ (a.slice first' last').tables, t.rows ≠ [] := fun t ht =>
    List.isEmpty_eq_false_iff.1 (Answer.mem_slice.1 ht).2
  have hname : ∀ t ∈ (a.slice first' last').tables, t.name ≠ [] := by
    intro t ht
    obtain ⟨⟨u, hu, rfl⟩, -⟩ := Answer.mem_slice.1 ht
    exact hstorable.name u hu
  have htags : ∀ t ∈ (a.slice first' last').tables, ∀ k ∈ t.tags.keys, k ∈ r.groupTags := by
    intro t ht
    obtain ⟨⟨u, hu, rfl⟩, -⟩ := Answer.mem_slice.1 ht
    exact hstorable.tags hr u hu
  have htime : ∀ t ∈ (a.slice first' last').tables, t.columns.head? = some "time".toList := by
    intro t ht
    obtain ⟨⟨u, hu, rfl⟩, -⟩ := Answer.mem_slice.1 ht
    exact hstorable.time u hu
  have hcolumns : ∀ t ∈ (a.slice first' last').tables, t.columns = (a.slice first' last').columns :=
    fun t ht => hstorable.orderly.columns_slice ht
  obtain ⟨b, hdecode, hb⟩ := Payload.own_rows_read_back hrows hname htags htime hcolumns
    (Answer.ascending_slice hstorable.orderly.ascending first' last') hencode
  have hsame := Payload.storedAnswer_of_fits hrows hstorable.orderly.error
    (hstorable.cells hr first' last' hle) hencode
  refine ⟨b, hdecode, fun hr' => ?_⟩
  rw [hr'.groupTags_eq hr.poses, hb, hsame]

/-- Whatever becomes of an attempt to store a slice, the entry of the signature reads back. -/
theorem Holds.keep (hstore : c.store = Memory.store) (hstorable : c.Storable signature a)
    {s : CacheState ε Memory} (h : c.Holds signature a s) {q : Text} {r : Request} {first last : Int64}
    (hr : c.Asks signature q r first last) {first' last' : Int64} (hle : first' ≤ last') :
    c.Holds signature a (c.keep r (a.slice first' last') first' last' s).2 := by
  intro key entry hview
  rcases view_keep_cases hstore hr.signature hview with hview | ⟨payload, hentry, rfl⟩
  · exact h key entry hview
  · exact ⟨hle, hstorable.reads_back hr hle hentry⟩

/-! ## Steps -/

theorem Holds.engine {s : CacheState ε Memory} (h : c.Holds signature a s) (e : ε) :
    c.Holds signature a { s with engine := e } := h

/-- What a query comes to when the cache behaves as its engine does: the slice over the window, and a state in
which the entry still reads back. -/
def Faithful (c : Cache ε Memory) (signature : Text) (a : Answer) (first last : Int64)
    (outcome : Except CacheError Answer × CacheState ε Memory) : Prop :=
  outcome.1 = .ok (a.slice first last) ∧ c.Holds signature a outcome.2

theorem Faithful.intro {first last : Int64} {outcome : Except CacheError Answer} {s : CacheState ε Memory}
    (h : outcome = .ok (a.slice first last)) (hs : c.Holds signature a s) :
    c.Faithful signature a first last (outcome, s) := ⟨h, hs⟩

variable (hstore : c.store = Memory.store) (hmirrors : c.Mirrors signature a)
  (hstorable : c.Storable signature a) {q : Text} {r : Request} {first last : Int64}
  (hr : c.Asks signature q r first last) {s : CacheState ε Memory}

include hstore hmirrors hstorable hr in
/-- **Asking the engine** is faithful, and so is storing what it answers. -/
theorem faithful_executeAndKeep (h : c.Holds signature a s) :
    c.Faithful signature a first last (c.executeAndKeep r q first last s) := by
  obtain ⟨e, he⟩ := executeAndKeep_of_ok (hmirrors.whole hr) hstorable.orderly.error first last s
  rw [he]
  exact .intro rfl ((h.engine e).keep hstore hstorable hr hr.ordered)

/-- The stored slice and the fetched ones join to the slice over the hull of both windows, or not at all. -/
theorem joined_slices {tolerance : Tolerance} (h : a.Orderly) {first last first' last' : Int64}
    (hwindow : first' ≤ last') (hoverlap : first ≤ last' ∧ first' ≤ last) :
    let hull := Answer.hull (first, last) (first', last')
    let fragments : List Fragment := ⟨first', last', a.slice first' last'⟩ ::
      (remainders first last first' last').map fun p => ⟨p.1, p.2, a.slice p.1 p.2⟩
    (Fragment.joinAll tolerance fragments = [] → a.slice hull.1 hull.2 = .empty) ∧
      ∀ b, Fragment.joinAll tolerance fragments = [b] → b = a.slice hull.1 hull.2 := by
  apply Fragment.joinAll_slices h
  · refine List.forall_mem_cons.2 ⟨⟨hwindow, rfl⟩, fun f hf => ?_⟩
    obtain ⟨p, hp, rfl⟩ := List.mem_map.1 hf
    exact ⟨remainders_ordered hp, rfl⟩
  · refine List.pairwise_cons.2 ⟨fun f hf => ?_, ?_⟩
    · obtain ⟨p, hp, rfl⟩ := List.mem_map.1 hf
      exact (remainders_apart hp).symm
    · exact List.pairwise_map.2 ((remainders_pairwise hwindow).imp .inl)
  · refine List.forall_mem_cons.2 ⟨(inside_hull _ _).2, fun f hf => ?_⟩
    obtain ⟨p, hp, rfl⟩ := List.mem_map.1 hf
    exact remainders_inside hoverlap.1 hoverlap.2 hp
  · intro n hle hge
    rcases covered_of_hull hle hge with hn | ⟨p, hp, hn⟩
    · exact ⟨_, List.mem_cons_self, hn⟩
    · exact ⟨_, List.mem_cons_of_mem _ (List.mem_map_of_mem hp), hn⟩

include hstore hmirrors hstorable hr in
/-- **Completing what is stored** is faithful. -/
theorem faithful_complete (h : c.Holds signature a s) {first' last' : Int64} (hwindow : first' ≤ last')
    (hoverlap : first ≤ last' ∧ first' ≤ last) :
    c.Faithful signature a first last
      (c.complete r q first last ⟨first', last', a.slice first' last'⟩ s) := by
  have hparts : ∀ p ∈ remainders first last first' last', p.1 ≤ p.2 := fun p hp => remainders_ordered hp
  have hjoin := @joined_slices _ c.settings.tolerance hstorable.orderly first last first' last' hwindow hoverlap
  have hhull := inside_hull (first, last) (first', last')
  have hfst : (if first' < first then first' else first) = (Answer.hull (first, last) (first', last')).1 := rfl
  have hsnd : (if last < last' then last' else last) = (Answer.hull (first, last) (first', last')).2 := rfl
  rw [complete]
  simp only [hfst, hsnd]
  generalize Answer.hull (first, last) (first', last') = hull at hjoin hhull
  obtain ⟨⟨hfirst, hlast⟩, -⟩ := hhull
  have hslice : (a.slice hull.1 hull.2).slice first last = a.slice first last := Answer.slice_slice hfirst hlast a
  have hordered : hull.1 ≤ hull.2 := Int64.le_trans hfirst (Int64.le_trans hr.ordered hlast)
  split
  · rename_i hnil
    obtain ⟨hfirst, hlast⟩ := remainders_eq_nil_iff.1 hnil
    exact .intro (congrArg Except.ok (Answer.slice_slice hfirst hlast a)) h
  · have hslices : ∀ p ∈ remainders first last first' last', (a.slice p.1 p.2).error = none ∧
        ∀ e, (c.engine (r.inWindow p.1 p.2) c.settings.database c.settings.queryPrecision e).1 =
          .ok (a.slice p.1 p.2) := fun p hp => ⟨hstorable.orderly.error, hmirrors.part hr p.1 p.2 (hparts p hp)⟩
    obtain ⟨e, he⟩ := fetch_of_ok hslices s
    have hkeep := (h.engine e).keep hstore hstorable hr hordered
    rw [he]
    simp only
    split
    · rename_i hnil
      have hnone : Answer.empty.slice first last = .empty := rfl
      rw [hjoin.1 hnil] at hslice hkeep
      rw [hnone] at hslice
      exact .intro (congrArg Except.ok hslice) hkeep
    · rename_i b hb
      rw [hjoin.2 b hb, hslice]
      exact .intro rfl hkeep
    · exact faithful_executeAndKeep hstore hmirrors hstorable hr (h.engine e)

include hstore hmirrors hstorable hr in
/-- **Every query is answered faithfully.** -/
theorem faithful_query (h : c.Holds signature a s) :
    c.Faithful signature a first last (c.query q s) := by
  rcases overlaps_or_apart signature first last s with ⟨key, e, hview, hover⟩ | hapart
  · obtain ⟨hwindow, b, hdecode, hslice⟩ := h key e hview
    rw [hr.query_of_overlaps hstore hview hover hdecode, hslice hr]
    exact faithful_complete hstore hmirrors hstorable hr h hwindow (overlaps_iff.1 hover).symm
  · rw [hr.query_of_apart hstore hapart]
    exact faithful_executeAndKeep hstore hmirrors hstorable hr h

/-! ## Runs -/

/-- The call is about queries of the signature, and an answer that it gives is the engine's own. -/
inductive Concerns (c : Cache ε Memory) (signature : Text) (a : Answer) : Call → Prop where
  | ask {q : Text} {r : Request} {first last : Int64} (hr : c.Asks signature q r first last) :
    Concerns c signature a (.ask q)
  | give {q : Text} {r : Request} {first last : Int64} (hr : c.Asks signature q r first last) :
    Concerns c signature a (.give q (a.slice first last))

include hstore hmirrors hstorable in
theorem Holds.after (h : c.Holds signature a s) {call : Call} (hcall : c.Concerns signature a call) :
    c.Holds signature a (c.after s call) := by
  cases hcall with
  | ask hr => exact (faithful_query hstore hmirrors hstorable hr h).2
  | @give q r first last hr =>
    have herror : (a.slice first last).error = none := hstorable.orderly.error
    rw [Cache.after, storeAnswer, hr.read]
    simp only [hr.window, herror]
    exact h.keep hstore hstorable hr hr.ordered

include hstore hmirrors hstorable in
theorem Holds.run : ∀ {calls : List Call} {s : CacheState ε Memory}, (∀ call ∈ calls, c.Concerns signature a call) →
    c.Holds signature a s → c.Holds signature a (c.run calls s)
  | [], _, _, h => h
  | call :: calls, _, hcalls, h => by
    obtain ⟨hcall, hcalls⟩ := List.forall_mem_cons.1 hcalls
    rw [Cache.run, List.foldl_cons]
    exact Holds.run hcalls (h.after hstore hmirrors hstorable hcall)

/-- **The cache cannot be told from the engine.**  Let the engine answer the queries of one signature with the
slices of an answer that can be stored.  Then after every run of such queries, and of answers to them that were
given to the cache, a query of the signature is answered with the slice over its window. -/
theorem query_transparent (hstore : c.store = Memory.store) (hmirrors : c.Mirrors signature a)
    (hstorable : c.Storable signature a) {calls : List Call} (hcalls : ∀ call ∈ calls, c.Concerns signature a call)
    (e : ε) (keyLimit : Option Nat) {q : Text} {r : Request} {first last : Int64}
    (hr : c.Asks signature q r first last) :
    (c.query q (c.run calls (start e keyLimit))).1 = .ok (a.slice first last) := by
  have hstart : c.Holds signature a (start e keyLimit) := fun _ _ h => by cases h
  exact (faithful_query hstore hmirrors hstorable hr (hstart.run hstore hmirrors hstorable hcalls)).1

open Hosts in
/-- The last query finds a part of its window stored, from an answer that was given and was joined since. -/
theorem query_transparent_hosts :
    ((cache answer).query (Hosts.query 15 40) ((cache answer).run
      [.ask (Hosts.query 5 20), .give (Hosts.query 18 25) (answer.slice 18 25), .ask (Hosts.query 10 30)]
      (start () none))).1 = .ok (answer.slice 15 40) := by
  refine query_transparent rfl (mirrors answer) storable_answer (fun call hcall => ?_) () none
    (asks_query answer (by decide))
  simp only [List.mem_cons, List.not_mem_nil, or_false] at hcall
  rcases hcall with rfl | rfl | rfl
  · exact .ask (asks_query answer (by decide))
  · exact .give (asks_query answer (by decide))
  · exact .ask (asks_query answer (by decide))

end Cache
end SeriesCache
