import SeriesCache.Cache
import SeriesCache.Proofs.Dict
import SeriesCache.Proofs.Outcome
/-!
# What the steps of a cache do

Over a store in memory, a cache remembers at most one entry for a signature (`CacheState.view`).  Storing an
answer either fails and changes nothing or puts an entry there (`keep_cases`); looking one up finds the
entry if it overlaps and can be read, and lets go of it if it cannot (`lookup_cases`).
-/
namespace SeriesCache

variable {ε : Type}

/-- What is remembered for a signature: its key, and the entry under it if there is one. -/
def CacheState.view (signature : Text) (s : CacheState ε Memory) : Option (Text × Option Entry) :=
  (s.keys.get? signature).map fun key => (key, s.store.entries.get? key)

namespace Cache

variable {c : Cache ε Memory}

/-! ## The store -/

/-- Whether the store refuses a key for its length. -/
def refuses (limit : Option Nat) (key : Text) : Bool := limit.any (· < Utf8.size key)

theorem set_cases (key : Text) (e : Entry) (m : Memory) :
    (refuses m.keyLimit key = true ∧ ∃ error, Memory.set key e m = (.error error, m)) ∨
    (refuses m.keyLimit key = false ∧
      Memory.set key e m = (.ok (), { m with entries := m.entries.insert key e })) := by
  rw [Memory.set]
  cases m.keyLimit with
  | none => exact .inr ⟨rfl, rfl⟩
  | some limit =>
    by_cases h : limit < Utf8.size key
    · exact .inl ⟨decide_eq_true h, _, if_pos h⟩
    · exact .inr ⟨decide_eq_false h, if_neg h⟩

theorem forget_eq (hstore : c.store = Memory.store) (key : Text) (s : CacheState ε Memory) :
    c.forget key s = { s with store := { s.store with entries := s.store.entries.erase key } } := by
  rw [forget, hstore]
  rfl

theorem get_eq (hstore : c.store = Memory.store) (key : Text) (first last : Int64) (m : Memory) :
    c.store.get key first last m = (match m.entries.get? key with
      | some e => if e.overlaps first last then .ok e else .error .miss
      | none => .error .miss, m) := by
  rw [hstore]
  change Memory.get key first last m = _
  rw [Memory.get]
  cases m.entries.get? key <;> rfl

/-! ## Asking -/

theorem execute_snd (query : Text) (s : CacheState ε Memory) :
    ∃ e, (c.execute query s).2 = { s with engine := e } := ⟨_, rfl⟩

theorem execute_of_ok {text : Text} {b : Answer}
    (h : ∀ e, (c.engine text c.settings.database c.settings.queryPrecision e).1 = .ok b)
    (s : CacheState ε Memory) : ∃ e, c.execute text s = (.ok b, { s with engine := e }) := by
  rw [execute]
  cases hengine : c.engine text c.settings.database c.settings.queryPrecision s.engine with
  | mk outcome e =>
    have hok := h s.engine
    rw [hengine] at hok
    simp only at hok
    subst hok
    exact ⟨e, rfl⟩

theorem fetch_snd (r : Request) : ∀ (parts : List (Int64 × Int64)) (s : CacheState ε Memory),
    ∃ e, (c.fetch r parts s).2 = { s with engine := e }
  | [], s => ⟨s.engine, rfl⟩
  | (first, last) :: parts, s => by
    obtain ⟨e, he⟩ := execute_snd (c := c) (r.inWindow first last) s
    rw [fetch]
    cases hexecute : c.execute (r.inWindow first last) s with
    | mk outcome s' =>
      rw [hexecute] at he
      simp only at he
      subst he
      cases outcome with
      | error error => exact ⟨e, rfl⟩
      | ok a =>
        simp only
        cases a.error with
        | some _ => exact ⟨e, rfl⟩
        | none =>
          obtain ⟨e', he'⟩ := fetch_snd r parts { s with engine := e }
          cases hfetch : c.fetch r parts { s with engine := e } with
          | mk fetched s'' =>
            rw [hfetch] at he'
            simp only at he'
            subst he'
            cases fetched <;> exact ⟨e', rfl⟩

/-- **Parts that are all answered without an error** are fetched as fragments, and nothing else is touched. -/
theorem fetch_of_ok {r : Request} {f : Int64 × Int64 → Answer} : ∀ {parts : List (Int64 × Int64)},
    (∀ p ∈ parts, (f p).error = none ∧
      ∀ e, (c.engine (r.inWindow p.1 p.2) c.settings.database c.settings.queryPrecision e).1 = .ok (f p)) →
    ∀ s : CacheState ε Memory, ∃ e, c.fetch r parts s =
      (.fragments (parts.map fun p => ⟨p.1, p.2, f p⟩), { s with engine := e })
  | [], _, s => ⟨s.engine, rfl⟩
  | p :: parts, h, s => by
    obtain ⟨⟨herror, hp⟩, hparts⟩ := List.forall_mem_cons.1 h
    obtain ⟨e, he⟩ := execute_of_ok hp s
    obtain ⟨e', he'⟩ := fetch_of_ok hparts { s with engine := e }
    refine ⟨e', ?_⟩
    rw [fetch, he]
    simp only [herror]
    rw [he']
    rfl

/-! ## Storing -/

theorem keys_remember (hstore : c.store = Memory.store) (signature key : Text) (s : CacheState ε Memory) :
    (c.remember signature key s).keys = s.keys.insert signature key := by
  rw [remember]
  split
  · split
    · rfl
    · rw [forget_eq hstore]
  · rfl

theorem keyLimit_remember (hstore : c.store = Memory.store) (signature key : Text) (s : CacheState ε Memory) :
    (c.remember signature key s).store.keyLimit = s.store.keyLimit := by
  rw [remember]
  split
  · split
    · rfl
    · rw [forget_eq hstore]
  · rfl

theorem engine_remember (hstore : c.store = Memory.store) (signature key : Text) (s : CacheState ε Memory) :
    (c.remember signature key s).engine = s.engine := by
  rw [remember]
  split
  · split
    · rfl
    · rw [forget_eq hstore]
  · rfl

/-- Of what is stored, the entry under the key before goes. -/
theorem get?_remember (hstore : c.store = Memory.store) (signature key : Text) (s : CacheState ε Memory) (k : Text) :
    (c.remember signature key s).store.entries.get? k =
      if s.keys.get? signature = some k ∧ k ≠ key then none else s.store.entries.get? k := by
  rw [remember]
  cases hold : s.keys.get? signature with
  | none => simp
  | some old =>
    simp only
    by_cases hkey : old = key
    · rw [if_pos hkey]
      rw [if_neg]
      rintro ⟨hk, hne⟩
      cases hk
      exact hne hkey
    · rw [if_neg hkey, forget_eq hstore, Dict.get?_erase]
      by_cases hk : old = k
      · rw [if_pos hk, if_pos ⟨congrArg some hk, hk ▸ hkey⟩]
      · rw [if_neg hk, if_neg fun h => hk (Option.some.inj h.1)]

theorem encode_of_entryOf {r : Request} {b : Answer} {key : Text} {payload : Bytes}
    (h : c.entryOf r b = .ok (key, payload)) :
    Payload.encode c.settings.textLayout b (r.tableKeysOf c.context.catalog b) = .ok payload := by
  obtain ⟨_, -, h⟩ := Outcome.bind_eq_ok_iff.1 h
  obtain ⟨_, hpayload, h⟩ := Outcome.bind_eq_ok_iff.1 h
  cases h
  exact Outcome.mapError_eq_ok_iff.1 hpayload

/-- **Storing an answer** fails and leaves all as it was, or puts the entry under its key and remembers it. -/
theorem keep_cases (hstore : c.store = Memory.store) (r : Request) (a : Answer) (first last : Int64)
    (s : CacheState ε Memory) :
    ((∀ key payload, c.entryOf r a = .ok (key, payload) → refuses s.store.keyLimit key = true) ∧
      ∃ e, c.keep r a first last s = (.error e, s)) ∨
    ∃ key payload, c.entryOf r a = .ok (key, payload) ∧ refuses s.store.keyLimit key = false ∧
      c.keep r a first last s = (.ok (), c.remember r.signature key { s with store := { s.store with
        entries := s.store.entries.insert key ⟨payload, first, last, a.tables.length⟩ } }) := by
  have hset : c.store.set = Memory.set := by rw [hstore]; rfl
  rw [keep, hset]
  cases hentry : c.entryOf r a with
  | error e => exact .inl ⟨(fun _ _ h => by cases h), e, rfl⟩
  | ok entry =>
    obtain ⟨key, payload⟩ := entry
    simp only
    rcases set_cases key ⟨payload, first, last, a.tables.length⟩ s.store with ⟨hlong, e, he⟩ | ⟨hshort, hput⟩
    · rw [he]
      refine .inl ⟨fun key' payload' h => ?_, _, rfl⟩
      cases h
      exact hlong
    · rw [hput]
      exact .inr ⟨key, payload, rfl, hshort, rfl⟩

theorem view_remember (hstore : c.store = Memory.store) (signature key : Text) (e : Entry)
    (s : CacheState ε Memory) :
    (c.remember signature key { s with store := { s.store with
      entries := s.store.entries.insert key e } }).view signature = some (key, some e) := by
  rw [CacheState.view, keys_remember hstore, Dict.get?_insert_self, Option.map_some, get?_remember hstore,
    if_neg fun h => h.2 rfl, Dict.get?_insert_self]

theorem engine_keep (hstore : c.store = Memory.store) (r : Request) (a : Answer) (first last : Int64)
    (s : CacheState ε Memory) : (c.keep r a first last s).2.engine = s.engine := by
  rcases keep_cases hstore r a first last s with ⟨-, _, hkeep⟩ | ⟨_, _, -, -, hkeep⟩ <;> rw [hkeep]
  exact engine_remember hstore _ _ _

theorem keyLimit_keep (hstore : c.store = Memory.store) (r : Request) (a : Answer) (first last : Int64)
    (s : CacheState ε Memory) : (c.keep r a first last s).2.store.keyLimit = s.store.keyLimit := by
  rcases keep_cases hstore r a first last s with ⟨-, _, hkeep⟩ | ⟨_, _, -, -, hkeep⟩ <;> rw [hkeep]
  exact keyLimit_remember hstore _ _ _

/-- The answer is written without fault and the store takes its key. -/
def Keeps (c : Cache ε Memory) (keyLimit : Option Nat) (r : Request) (a : Answer) : Prop :=
  ∃ key payload, c.entryOf r a = .ok (key, payload) ∧ refuses keyLimit key = false

theorem keep_of_not_keeps (hstore : c.store = Memory.store) {r : Request} {a : Answer} {s : CacheState ε Memory}
    (h : ¬ c.Keeps s.store.keyLimit r a) (first last : Int64) : (c.keep r a first last s).2 = s := by
  rcases keep_cases hstore r a first last s with ⟨-, _, hkeep⟩ | ⟨key, payload, hentry, hshort, -⟩
  · rw [hkeep]
  · exact absurd ⟨key, payload, hentry, hshort⟩ h

/-- **An answer that is kept** is remembered for its signature, over the window that it is stored with. -/
theorem view_keep (hstore : c.store = Memory.store) {r : Request} {a : Answer} {s : CacheState ε Memory} {key : Text}
    {payload : Bytes} (hentry : c.entryOf r a = .ok (key, payload)) (hshort : refuses s.store.keyLimit key = false)
    (first last : Int64) : (c.keep r a first last s).2.view r.signature =
      some (key, some ⟨payload, first, last, a.tables.length⟩) := by
  rcases keep_cases hstore r a first last s with ⟨hlong, -⟩ | ⟨key', payload', hentry', -, hkeep⟩
  · rw [hlong key payload hentry] at hshort
    cases hshort
  · rw [hentry] at hentry'
    cases hentry'
    rw [hkeep, view_remember hstore]

/-- The entry of a signature after an attempt to store an answer for it is the one before, or that answer's. -/
theorem view_keep_cases (hstore : c.store = Memory.store) {signature : Text} {r : Request} (hr : r.signature = signature)
    {a : Answer} {first last : Int64} {s : CacheState ε Memory} {key : Text} {entry : Entry}
    (hview : (c.keep r a first last s).2.view signature = some (key, some entry)) :
    s.view signature = some (key, some entry) ∨
      ∃ payload, c.entryOf r a = .ok (key, payload) ∧ entry = ⟨payload, first, last, a.tables.length⟩ := by
  by_cases hkeeps : c.Keeps s.store.keyLimit r a
  · obtain ⟨key', payload, hentry, hshort⟩ := hkeeps
    rw [← hr, view_keep hstore hentry hshort] at hview
    cases hview
    exact .inr ⟨payload, hentry, rfl⟩
  · rw [keep_of_not_keeps hstore hkeeps] at hview
    exact .inl hview

/-! ## What becomes of the state -/

theorem executeAndKeep_of_ok {r : Request} {q : Text} {a : Answer}
    (hengine : ∀ e, (c.engine q c.settings.database c.settings.queryPrecision e).1 = .ok a) (ha : a.error = none)
    (first last : Int64) (s : CacheState ε Memory) :
    ∃ e, c.executeAndKeep r q first last s = (.ok a, (c.keep r a first last { s with engine := e }).2) := by
  obtain ⟨e, he⟩ := execute_of_ok hengine s
  refine ⟨e, ?_⟩
  rw [executeAndKeep, he]
  simp only [ha]

/-- Where the engine is asked, nothing else changes or its answer is stored. -/
theorem executeAndKeep_snd (r : Request) (q : Text) (first last : Int64) (s : CacheState ε Memory) :
    ∃ e, (c.executeAndKeep r q first last s).2 = { s with engine := e } ∨
      ∃ a, (c.executeAndKeep r q first last s).2 = (c.keep r a first last { s with engine := e }).2 := by
  obtain ⟨e, he⟩ := execute_snd (c := c) q s
  refine ⟨e, ?_⟩
  rw [executeAndKeep]
  cases hexecute : c.execute q s with
  | mk outcome s' =>
    rw [hexecute] at he
    simp only at he
    subst he
    cases outcome with
    | error error => exact .inl rfl
    | ok a =>
      simp only
      cases a.error with
      | some _ => exact .inl rfl
      | none => exact .inr ⟨a, rfl⟩

/-- A query of which the missing parts are fetched and joined to one answer is answered with its slice of that. -/
theorem complete_fst {r : Request} {q : Text} {first last : Int64} {cached : Fragment} {s s' : CacheState ε Memory}
    {fresh : List Fragment} {a : Answer} (hparts : remainders first last cached.first cached.last ≠ [])
    (hfetch : c.fetch r (remainders first last cached.first cached.last) s = (.fragments fresh, s'))
    (hjoin : Fragment.joinAll c.settings.tolerance (cached :: fresh) = [a]) :
    (c.complete r q first last cached s).1 = .ok (a.slice first last) := by
  obtain ⟨part, parts, hrest⟩ := List.exists_cons_of_ne_nil hparts
  rw [hrest] at hfetch
  rw [complete, hrest]
  simp only
  rw [hfetch]
  simp only
  rw [hjoin]

/-- **Where a query is completed**, nothing but the engine changes, or an answer is stored over the window or over
its hull with that of what is stored. -/
theorem complete_snd (r : Request) (q : Text) (first last : Int64) (cached : Fragment) (s : CacheState ε Memory) :
    ∃ e, (c.complete r q first last cached s).2 = { s with engine := e } ∨
      ∃ a window, (window = (first, last) ∨ window = Answer.hull (first, last) (cached.first, cached.last)) ∧
        (c.complete r q first last cached s).2 = (c.keep r a window.1 window.2 { s with engine := e }).2 := by
  have hfst : (if cached.first < first then cached.first else first) =
    (Answer.hull (first, last) (cached.first, cached.last)).1 := rfl
  have hsnd : (if last < cached.last then cached.last else last) =
    (Answer.hull (first, last) (cached.first, cached.last)).2 := rfl
  rw [complete]
  simp only [hfst, hsnd]
  generalize Answer.hull (first, last) (cached.first, cached.last) = hull
  split
  · exact ⟨s.engine, .inl rfl⟩
  · obtain ⟨e, he⟩ := fetch_snd (c := c) r (remainders first last cached.first cached.last) s
    cases hfetch : c.fetch r (remainders first last cached.first cached.last) s with
    | mk fetched s' =>
      rw [hfetch] at he
      simp only at he
      subst he
      cases fetched with
      | failed error => exact ⟨e, .inl rfl⟩
      | refused =>
        obtain ⟨e', he'⟩ := execute_snd (c := c) q { s with engine := e }
        exact ⟨e', .inl he'⟩
      | fragments fresh =>
        simp only
        split
        · exact ⟨e, .inr ⟨.empty, hull, .inr rfl, by simp only⟩⟩
        · rename_i a _
          exact ⟨e, .inr ⟨a, hull, .inr rfl, by simp only⟩⟩
        · obtain ⟨e', he' | ⟨a, he'⟩⟩ := executeAndKeep_snd (c := c) r q first last { s with engine := e }
          · exact ⟨e', .inl he'⟩
          · exact ⟨e', .inr ⟨a, _, .inl rfl, he'⟩⟩

/-! ## Looking up -/

theorem lookup_eq (hstore : c.store = Memory.store) (signature : Text) (first last : Int64)
    (s : CacheState ε Memory) : c.lookup signature first last s = match s.view signature with
      | some (key, some e) =>
        if e.overlaps first last then
          match Payload.decode c.settings.textLayout e.payload with
          | .ok a => (some (a, e.first, e.last), s)
          | .error _ => (none, c.forget key { s with keys := s.keys.erase signature })
        else (none, s)
      | _ => (none, s) := by
  rw [lookup, CacheState.view]
  cases s.keys.get? signature with
  | none => rfl
  | some key =>
    simp only [get_eq hstore, Option.map_some]
    cases s.store.entries.get? key with
    | none => rfl
    | some e =>
      simp only
      cases e.overlaps first last with
      | false => rfl
      | true =>
        cases h : Payload.decode c.settings.textLayout e.payload with
        | ok a => simp only [if_true, h]
        | error fault => simp only [if_true, h]

/-- **Looking an answer up** finds nothing that overlaps, or an entry that is read, or one that is not and
goes. -/
theorem lookup_cases (hstore : c.store = Memory.store) (signature : Text) (first last : Int64)
    (s : CacheState ε Memory) :
    ((∀ key e, s.view signature = some (key, some e) → e.overlaps first last = false) ∧
      c.lookup signature first last s = (none, s)) ∨
    ∃ key e, s.view signature = some (key, some e) ∧ e.overlaps first last = true ∧
      ((∃ a, Payload.decode c.settings.textLayout e.payload = .ok a ∧
        c.lookup signature first last s = (some (a, e.first, e.last), s)) ∨
      ∃ error, Payload.decode c.settings.textLayout e.payload = .error error ∧
        c.lookup signature first last s =
          (none, c.forget key { s with keys := s.keys.erase signature })) := by
  rw [lookup_eq hstore]
  split
  · rename_i key e hview
    cases hover : e.overlaps first last with
    | false =>
      refine .inl ⟨fun key' e' hview' => ?_, rfl⟩
      rw [hview] at hview'
      cases hview'
      exact hover
    | true =>
      refine .inr ⟨key, e, hview, hover, ?_⟩
      simp only [if_true]
      cases hdecode : Payload.decode c.settings.textLayout e.payload with
      | ok a => exact .inl ⟨a, rfl, rfl⟩
      | error error => exact .inr ⟨error, rfl, rfl⟩
  · rename_i hnone
    exact .inl ⟨fun key e hview => absurd hview (hnone key e), rfl⟩

/-! ## Runs -/

/-- What a caller may do: put a query to the cache, or give it an answer that it has. -/
inductive Call where
  | ask (query : Text)
  | give (query : Text) (answer : Answer)

/-- The state after a call, whatever comes of it. -/
def after (c : Cache ε Memory) (s : CacheState ε Memory) : Call → CacheState ε Memory
  | .ask q => (c.query q s).2
  | .give q b => (c.storeAnswer q b s).2

def run (c : Cache ε Memory) (calls : List Call) (s : CacheState ε Memory) : CacheState ε Memory :=
  calls.foldl c.after s

/-- Nothing is stored yet and no key remembered. -/
def start (e : ε) (keyLimit : Option Nat) : CacheState ε Memory := ⟨e, .empty keyLimit, .empty⟩

end Cache
end SeriesCache
