import SeriesCache.Proofs.Cache.Effects
import SeriesCache.Proofs.Cache.Fetching
import SeriesCache.Proofs.Series.Fragments
/-!
# Failures

Whatever fails, the store and the keys stay consistent (`failures_leave_cache`).  An attempt to store an answer that
fails changes nothing (`keep_fails_or_stores`).  A call that fails changes nothing but the engine, once an entry
that is spoiled for it is gone.  And an answer that is stored has no error, and comes from answers without one
(`Cache.Provided`): it is the engine's own, the caller's, or what the engine answered joined with what was stored.
-/
namespace SeriesCache

variable {ε : Type}

/-! ## Answers without an error -/

theorem Answer.error_join {a b joined : Answer} (ha : a.error = none) (hb : b.error = none)
    (h : a.join b = .ok joined) : joined.error = none := by
  rw [eq_of_join h, ha, hb]
  rfl

namespace Fragment

variable {tolerance : Tolerance}

theorem error_join? {f g h : Fragment} (hf : f.answer.error = none) (hg : g.answer.error = none)
    (hjoin : join? tolerance f g = some h) : h.answer.error = none := by
  obtain ⟨e, l, hcases, -, a, ha, rfl⟩ := exists_of_join? hjoin
  rcases hcases with ⟨rfl, rfl⟩ | ⟨rfl, rfl⟩
  · exact Answer.error_join hf hg ha
  · exact Answer.error_join hg hf ha

/-- **Fragments without an error** are joined to answers without one. -/
theorem error_joinAll (tolerance : Tolerance) {fragments : List Fragment} (h : ∀ f ∈ fragments, f.answer.error = none) :
    ∀ a ∈ joinAll tolerance fragments, a.error = none := by
  intro a ha
  obtain ⟨f, hf, rfl⟩ := forall_joinAll (fun _ _ _ => error_join?) h a ha
  exact hf

end Fragment

theorem Payload.error_decode {layout : TextLayout} {bytes : Bytes} {a : Answer} (h : decode layout bytes = .ok a) :
    a.error = none := by
  unfold decode at h
  split at h
  · cases h
    rfl
  · obtain ⟨tables, -, h⟩ := Outcome.bind_eq_ok_iff.1 h
    cases h
    rfl

namespace Cache

/-! ## Attempts to store -/

/-- **An attempt to store an answer fails and changes nothing**, or it succeeds: its key is short enough, the answer
can be encoded, and the store takes it. -/
theorem keep_fails_or_stores {c : Cache ε Memory} (hstore : c.store = Memory.store) (r : Request) (a : Answer)
    (first last : Int64) (s : CacheState ε Memory) :
    (∃ error, c.keep r a first last s = (.error error, s)) ∨
    c.Keeps s.store.keyLimit r a ∧ (c.keep r a first last s).1 = .ok () := by
  rcases keep_cases hstore r a first last s with ⟨-, error, hkeep⟩ | ⟨key, payload, hentry, hshort, hkeep⟩
  · exact .inl ⟨error, hkeep⟩
  · rw [hkeep]
    exact .inr ⟨⟨key, payload, hentry, hshort⟩, rfl⟩

theorem get?_keep {c : Cache ε Memory} (hstore : c.store = Memory.store) {r : Request} {a : Answer}
    {first last : Int64} {s : CacheState ε Memory} {key : Text} {entry : Entry}
    (h : (c.keep r a first last s).2.store.entries.get? key = some entry) :
    s.store.entries.get? key = some entry ∨
      Payload.encode c.settings.textLayout a (r.tableKeysOf c.context.catalog a) = .ok entry.payload := by
  rcases keep_cases hstore r a first last s with ⟨-, error, hkeep⟩ | ⟨key', payload, hentry, -, hkeep⟩ <;>
    rw [hkeep] at h
  · exact .inl h
  · simp only [get?_remember hstore, Dict.get?_insert] at h
    split at h
    · cases h
    · split at h
      · cases h
        exact .inr (encode_of_entryOf hentry)
      · exact .inl h

/-! ## Where stored answers come from -/

section Recording

/-- Where the answer comes from that a call stores, given what it asked the engine: it is what the engine answered,
or it is joined from what is stored and what the engine answered for the rest, or the caller gave it.  None of these
had an error. -/
inductive Provided (c : Cache (ε × List Exchange) Memory) (s : CacheState (ε × List Exchange) Memory)
    (xs : List Exchange) : Call → Answer → Prop
  | engine {q : Text} {a : Answer} (hasked : ⟨q, .ok a⟩ ∈ xs) (hclean : a.error = none) : Provided c s xs (.ask q) a
  | joined {q key : Text} {r : Request} {e : Entry} {b a : Answer} {fresh : List Fragment}
    (hread : Request.read c.context q = .ok r) (hview : s.view r.signature = some (key, some e))
    (hdecode : Payload.decode c.settings.textLayout e.payload = .ok b)
    (hasked : ∀ f ∈ fresh, f.exchange r ∈ xs) (hclean : ∀ f ∈ fresh, f.answer.error = none)
    (hjoin : Fragment.joinAll c.settings.tolerance (⟨e.first, e.last, b.restrictTags r.groupTags⟩ :: fresh) = [a] ∨
      Fragment.joinAll c.settings.tolerance (⟨e.first, e.last, b.restrictTags r.groupTags⟩ :: fresh) = [] ∧
        a = .empty) : Provided c s xs (.ask q) a
  | caller {q : Text} {a : Answer} (hclean : a.error = none) : Provided c s xs (.give q a) a

variable {c : Cache (ε × List Exchange) Memory} {s : CacheState (ε × List Exchange) Memory} {xs : List Exchange}

theorem Provided.error {call : Call} {a : Answer} (h : c.Provided s xs call a) : a.error = none := by
  cases h with
  | engine _ hclean => exact hclean
  | joined _ _ hdecode _ hclean hjoin =>
    have hall := fun (cached : Fragment) (hcached : cached.answer.error = none) =>
      Fragment.error_joinAll c.settings.tolerance (List.forall_mem_cons.2 ⟨hcached, hclean⟩)
    rcases hjoin with hjoin | ⟨-, rfl⟩
    · have hcached := Payload.error_decode hdecode
      exact hall _ hcached a (hjoin ▸ List.mem_singleton_self a)
    · rfl
  | caller hclean => exact hclean

/-- What is found in a state without an entry is found with it. -/
theorem Provided.of_without {signature key : Text} {call : Call} {a : Answer}
    (h : c.Provided (s.without signature key) xs call a) : c.Provided s xs call a := by
  cases h with
  | engine hasked hclean => exact .engine hasked hclean
  | joined hread hview hdecode hasked hclean hjoin =>
    exact .joined hread (CacheState.view_of_without hview) hdecode hasked hclean hjoin
  | caller hclean => exact .caller hclean

/-- What a query comes to after it asked the engine: an outcome, with all else as it was; or, if it has an answer,
that something is stored. -/
inductive Settles (c : Cache (ε × List Exchange) Memory) (s : CacheState (ε × List Exchange) Memory) (q : Text)
    (xs : List Exchange) : Except CacheError Answer × CacheState (ε × List Exchange) Memory → Prop
  | asked (outcome : Except CacheError Answer) (e : ε) :
    Settles c s q xs (outcome, { s with engine := (e, s.engine.2 ++ xs) })
  | stored (answer : Answer) (e : ε) {r : Request} {a : Answer} {first last : Int64}
    (ha : c.Provided s xs (.ask q) a) :
    Settles c s q xs (.ok answer, (c.keep r a first last { s with engine := (e, s.engine.2 ++ xs) }).2)

variable {engine : Engine ε} (hstore : c.store = Memory.store) (hengine : c.engine = engine.recording)

include hengine in
/-- A query that is asked as it stands, after other ones. -/
theorem executeAndKeep_settles (r : Request) (q : Text) (first last : Int64) (e : ε) (asked : List Exchange) :
    ∃ xs, c.Settles s q xs (c.executeAndKeep r q first last { s with engine := (e, s.engine.2 ++ asked) }) := by
  obtain ⟨⟨_, outcome⟩, e', rfl, hexecute⟩ := execute_recording hengine q { s with engine := (e, s.engine.2 ++ asked) }
  simp only [List.append_assoc] at hexecute
  unfold executeAndKeep
  rw [hexecute]
  cases outcome with
  | error error => exact ⟨_, .asked _ e'⟩
  | ok a =>
    simp only [Except.mapError]
    cases ha : a.error with
    | some _ => exact ⟨_, .asked _ e'⟩
    | none => exact ⟨_, .stored a e' (.engine (List.mem_append_right _ (List.mem_singleton_self _)) ha)⟩

include hengine in
/-- **Completing what is stored** settles the query, whatever goes wrong with the parts that are missing. -/
theorem complete_settles {r : Request} {q key : Text} {first last : Int64} {m : Entry} {b : Answer}
    (hread : Request.read c.context q = .ok r) (hview : s.view r.signature = some (key, some m))
    (hdecode : Payload.decode c.settings.textLayout m.payload = .ok b) :
    ∃ xs, c.Settles s q xs (c.complete r q first last ⟨m.first, m.last, b.restrictTags r.groupTags⟩ s) := by
  have hsame : { s with engine := (s.engine.1, s.engine.2 ++ []) } = s := by rw [List.append_nil]
  unfold complete
  split
  · have hnothing : c.Settles s q [] (.ok ((b.restrictTags r.groupTags).slice first last),
        { s with engine := (s.engine.1, s.engine.2 ++ []) }) := .asked _ _
    rw [hsame] at hnothing
    exact ⟨[], hnothing⟩
  · obtain ⟨outcome, asked, e, hfetch, hasked⟩ :=
      fetch_recording hengine r (remainders first last m.first m.last) s
    simp only [hfetch]
    cases hasked with
    | failed => exact ⟨_, .asked _ e⟩
    | refused =>
      obtain ⟨x, e', -, hexecute⟩ := execute_recording hengine q { s with engine := (e, s.engine.2 ++ _) }
      simp only [List.append_assoc] at hexecute
      simp only
      rw [hexecute]
      exact ⟨_, .asked _ e'⟩
    | all fresh hclean hparts =>
      have hmem : ∀ f ∈ fresh, f.exchange r ∈ fresh.map (Fragment.exchange r) := fun f hf => List.mem_map_of_mem hf
      simp only
      split
      · rename_i hjoin
        exact ⟨_, .stored _ e (.joined hread hview hdecode hmem hclean (.inr ⟨hjoin, rfl⟩))⟩
      · rename_i a hjoin
        exact ⟨_, .stored _ e (.joined hread hview hdecode hmem hclean (.inl hjoin))⟩
      · exact executeAndKeep_settles hengine r q first last e _

include hstore hengine in
/-- **A query that no entry is spoiled for** settles. -/
theorem query_settles {q : Text} (h : c.Sound q s) : ∃ xs, c.Settles s q xs (c.query q s) := by
  rcases query_of_sound hstore h with hquery | ⟨r, first, last, hread, hquery | ⟨key, m, b, hview, hdecode, hquery⟩⟩ <;>
    rw [hquery]
  · obtain ⟨x, e, -, hexecute⟩ := execute_recording hengine q s
    rw [hexecute]
    exact ⟨_, .asked _ e⟩
  · have hsettles := executeAndKeep_settles (s := s) hengine r q first last s.engine.1 []
    rw [List.append_nil] at hsettles
    exact hsettles
  · exact complete_settles hengine hread hview hdecode

theorem Settles.log {q : Text} {outcome : Except CacheError Answer × CacheState (ε × List Exchange) Memory}
    (hstore : c.store = Memory.store) (h : c.Settles s q xs outcome) : outcome.2.engine.2 = s.engine.2 ++ xs := by
  cases h with
  | asked outcome e => rfl
  | stored answer e ha => exact congrArg Prod.snd (engine_keep hstore _ _ _ _ _)

/-- A query that fails has stored nothing. -/
theorem Settles.failed {q : Text} {outcome : Except CacheError Answer × CacheState (ε × List Exchange) Memory}
    (h : c.Settles s q xs outcome) {error : CacheError} (herror : outcome.1 = .error error) :
    ∃ e, outcome.2 = { s with engine := e } := by
  cases h with
  | asked outcome e => exact ⟨_, rfl⟩
  | stored answer e ha => cases herror

theorem Settles.written {q : Text} {outcome : Except CacheError Answer × CacheState (ε × List Exchange) Memory}
    (hstore : c.store = Memory.store) (h : c.Settles s q xs outcome) {key : Text} {entry : Entry}
    (hentry : outcome.2.store.entries.get? key = some entry) : s.store.entries.get? key = some entry ∨
      ∃ (r : Request) (a : Answer), c.Provided s xs (.ask q) a ∧
        Payload.encode c.settings.textLayout a (r.tableKeysOf c.context.catalog a) = .ok entry.payload := by
  cases h with
  | asked outcome e => exact .inl hentry
  | stored answer e ha =>
    rcases get?_keep hstore hentry with hbefore | hencode
    · exact .inl hbefore
    · exact .inr ⟨_, _, ha, hencode⟩

/-! ## Calls -/

include hstore hengine in
/-- A query that fails leaves the store and the keys, when no entry is spoiled for it. -/
theorem query_failed {q : Text} (h : c.Sound q s) {error : CacheError} (herror : (c.query q s).1 = .error error) :
    (c.query q s).2.store = s.store ∧ (c.query q s).2.keys = s.keys := by
  obtain ⟨xs, hsettles⟩ := query_settles hstore hengine h
  obtain ⟨e, he⟩ := hsettles.failed herror
  rw [he]
  exact ⟨rfl, rfl⟩

include hstore in
theorem storeAnswer_failed {q : Text} {b : Answer} {error : CacheError}
    (herror : (c.storeAnswer q b s).1 = .error error) : (c.storeAnswer q b s).2 = s := by
  rcases c.storeAnswer_cases q b s with ⟨outcome, hcall⟩ | ⟨-, r, first, last, hcall⟩ <;> rw [hcall] at herror ⊢
  rcases keep_fails_or_stores hstore r b first last s with ⟨_, hkeep⟩ | ⟨-, hok⟩
  · rw [hkeep]
  · rw [hok] at herror
    cases herror

/-- The answer is one that a call may store, and the entry was written for it. -/
def WrittenFor (c : Cache (ε × List Exchange) Memory) (s : CacheState (ε × List Exchange) Memory)
    (xs : List Exchange) (call : Call) (entry : Entry) (a : Answer) : Prop :=
  c.Provided s xs call a ∧ a.error = none ∧ ∃ r : Request,
    Payload.encode c.settings.textLayout a (r.tableKeysOf c.context.catalog a) = .ok entry.payload

include hstore hengine in
/-- **What a call writes** is an answer that it may store. -/
theorem after_written : ∀ call, ∃ xs, (c.after s call).engine.2 = s.engine.2 ++ xs ∧
    ∀ key entry, (c.after s call).store.entries.get? key = some entry →
      s.store.entries.get? key = some entry ∨ ∃ a, c.WrittenFor s xs call entry a
  | .ask q => by
    rw [after]
    rcases c.sound_or_spoiled q s with h | ⟨signature, key, h⟩
    · obtain ⟨xs, hsettles⟩ := query_settles hstore hengine h
      refine ⟨xs, hsettles.log hstore, fun key entry hentry => (hsettles.written hstore hentry).imp_right ?_⟩
      rintro ⟨r, a, ha, hencode⟩
      exact ⟨a, ha, ha.error, r, hencode⟩
    · obtain ⟨xs, hsettles⟩ := query_settles hstore hengine h.sound_without
      rw [← h.query hstore] at hsettles
      have hlog := hsettles.log hstore
      refine ⟨xs, hlog, fun k entry hentry => ?_⟩
      rcases hsettles.written hstore hentry with hbefore | ⟨r, a, ha, hencode⟩
      · exact .inl (s.get?_of_without hbefore)
      · exact .inr ⟨a, ha.of_without, ha.error, r, hencode⟩
  | .give q b => by
    rw [after]
    refine ⟨[], ?_, fun key entry hentry => ?_⟩ <;>
      rcases c.storeAnswer_cases q b s with ⟨outcome, hcall⟩ | ⟨hb, r, first, last, hcall⟩
    · rw [hcall, List.append_nil]
    · rw [hcall, engine_keep hstore, List.append_nil]
    · rw [hcall] at hentry
      exact .inl hentry
    · rw [hcall] at hentry
      exact (get?_keep hstore hentry).imp_right fun hencode => ⟨b, .caller hb, hb, r, hencode⟩

end Recording

/-- **Failures leave the cache as it was**, whatever its state and whatever the engine does.  A call that fails leaves
the store and the keys alone, but that an entry which is spoiled for the query goes with the key that leads to it.
What a call writes has no error, and comes from answers without one.  An attempt to store an answer that fails changes
nothing.  And where an entry is spoiled, all comes about as it would without it: the answer, what the engine is asked,
and the state. -/
theorem failures_leave_cache {engine : Engine ε} {c : Cache (ε × List Exchange) Memory} (hstore : c.store = Memory.store)
    (hengine : c.engine = engine.recording) (s : CacheState (ε × List Exchange) Memory) :
    (∀ q error, (c.query q s).1 = .error error →
      (c.Sound q s → (c.query q s).2.store = s.store ∧ (c.query q s).2.keys = s.keys) ∧
      ∀ signature key, c.Spoiled q signature key s →
        (c.query q s).2.store = (s.without signature key).store ∧
          (c.query q s).2.keys = (s.without signature key).keys) ∧
    (∀ q b error, (c.storeAnswer q b s).1 = .error error → (c.storeAnswer q b s).2 = s) ∧
    (∀ call, ∃ xs, (c.after s call).engine.2 = s.engine.2 ++ xs ∧
      ∀ key entry, (c.after s call).store.entries.get? key = some entry →
        s.store.entries.get? key = some entry ∨ ∃ a, c.WrittenFor s xs call entry a) ∧
    (∀ r a first last, (∃ error, c.keep r a first last s = (.error error, s)) ∨
      c.Keeps s.store.keyLimit r a ∧ (c.keep r a first last s).1 = .ok ()) ∧
    ∀ q signature key, c.Spoiled q signature key s → c.query q s = c.query q (s.without signature key) := by
  refine ⟨fun q error herror => ⟨fun h => query_failed hstore hengine h herror, fun signature key h => ?_⟩,
    fun q b error => storeAnswer_failed hstore, after_written hstore hengine, fun r a first last => ?_,
    fun q signature key h => h.query hstore⟩
  · rw [h.query hstore] at herror ⊢
    exact query_failed hstore hengine h.sound_without herror
  · exact keep_fails_or_stores hstore r a first last s

namespace Corrupted

/-- The engine is down. -/
def engine : Engine Unit := fun _ _ _ e => (.error ⟨"down".toList⟩, e)

def cache : Cache (Unit × List Exchange) Memory :=
  ⟨engine.recording, Memory.store, Hosts.context, .ofDatabase "db".toList⟩

/-- What is stored for the queries by host cannot be read. -/
def state : CacheState (Unit × List Exchange) Memory :=
  ⟨((), []), ⟨Dict.empty.insert "k".toList ⟨[255], 10, 20, 1⟩, none⟩, Dict.empty.insert Hosts.signature "k".toList⟩

theorem spoiled : cache.Spoiled (Hosts.query 15 30) Hosts.signature "k".toList state := by
  have hdecode : Payload.decode cache.settings.textLayout [255] = .error (.truncated .key 2 1) := rfl
  refine .intro (e := ⟨[255], 10, 20, 1⟩) (Hosts.read_query 15 30) rfl rfl ?_ (by decide) hdecode
  exact CacheState.view_eq_some_iff.2 ⟨Dict.get?_insert_self _ _ _, Dict.get?_insert_self _ _ _⟩

theorem failed : (cache.query (Hosts.query 15 30) state).1 = .error (.engine ⟨"down".toList⟩) := by
  have hread : Request.read cache.context (Hosts.query 15 30) = .ok (Hosts.request 15 30) := Hosts.read_query 15 30
  have hwindow : cacheableWindow? (Hosts.request 15 30) = some (15, 30) := rfl
  have hsignature : (Hosts.request 15 30).signature = Hosts.signature := rfl
  rw [spoiled.query rfl, Cache.query, hread]
  simp only [hwindow, hsignature, lookup_eq (c := cache) rfl, CacheState.view_without]
  rfl

end Corrupted

open Corrupted in
/-- A query fails, and what was stored for it and could not be read is gone. -/
theorem failures_leave_cache_corrupted :
    (cache.query (Hosts.query 15 30) state).1 = .error (.engine ⟨"down".toList⟩) ∧
      (cache.query (Hosts.query 15 30) state).2.store = (state.without Hosts.signature "k".toList).store ∧
      (cache.query (Hosts.query 15 30) state).2.keys = (state.without Hosts.signature "k".toList).keys := by
  have hengine : cache.engine = Corrupted.engine.recording := rfl
  obtain ⟨hcalls, -⟩ := failures_leave_cache rfl hengine state
  exact ⟨failed, (hcalls _ _ failed).2 _ _ spoiled⟩

end Cache
end SeriesCache
