import SeriesCache.Proofs.Cache.Steps
/-!
# What a call leaves behind

An entry is spoiled for a query that overlaps it and cannot read it (`Cache.Spoiled`).  The query lets go of it and
goes on as if it had not been there (`Spoiled.query`).  A query that no entry is spoiled for asks the engine,
completes what is stored or passes by the cache (`query_of_sound`), and so a call leaves all as it is but the engine,
or stores one answer (`after_cases`).
-/
namespace SeriesCache

variable {ε : Type}

/-- The state without what is remembered for a signature: neither the key nor the entry under it. -/
def CacheState.without (signature key : Text) (s : CacheState ε Memory) : CacheState ε Memory :=
  { s with store := { s.store with entries := s.store.entries.erase key }, keys := s.keys.erase signature }

@[simp] theorem CacheState.view_without (signature key : Text) (s : CacheState ε Memory) :
    (s.without signature key).view signature = none := by
  unfold view without
  simp [Dict.get?_erase]

theorem CacheState.view_eq_some_iff {signature key : Text} {e : Option Entry} {s : CacheState ε Memory} :
    s.view signature = some (key, e) ↔ s.keys.get? signature = some key ∧ s.store.entries.get? key = e := by
  unfold view
  cases s.keys.get? signature <;> simp +contextual

theorem CacheState.get?_of_without {signature key k : Text} {e : Entry} (s : CacheState ε Memory)
    (h : (s.without signature key).store.entries.get? k = some e) : s.store.entries.get? k = some e := by
  unfold without at h
  simp only [Dict.get?_erase] at h
  split at h
  · cases h
  · exact h

/-- An entry that is found without another one is found with it. -/
theorem CacheState.view_of_without {signature key other k : Text} {e : Entry} {s : CacheState ε Memory}
    (h : (s.without signature key).view other = some (k, some e)) : s.view other = some (k, some e) := by
  rw [view_eq_some_iff] at h ⊢
  obtain ⟨hkey, hentry⟩ := h
  refine ⟨?_, s.get?_of_without hentry⟩
  unfold without at hkey
  simp only [Dict.get?_erase] at hkey
  split at hkey
  · cases hkey
  · exact hkey

namespace Cache

variable {c : Cache ε Memory} {q signature key : Text} {s : CacheState ε Memory}

/-! ## Entries that cannot be read -/

/-- The query can be cached and is one of the signature; the entry under the key that is remembered for it overlaps
the window of the query, and its bytes cannot be read. -/
inductive Spoiled (c : Cache ε Memory) (q signature key : Text) (s : CacheState ε Memory) : Prop
  | intro {r : Request} {first last : Int64} {e : Entry} {error : PayloadError}
    (hread : Request.read c.context q = .ok r) (hwindow : cacheableWindow? r = some (first, last))
    (hsignature : r.signature = signature) (hview : s.view signature = some (key, some e))
    (hover : e.overlaps first last = true)
    (hdecode : Payload.decode c.settings.textLayout e.payload = .error error)

/-- **A spoiled entry is as good as none**: the query is answered, the engine asked and the state left as if neither
the entry nor the key that leads to it had been there. -/
theorem Spoiled.query (hstore : c.store = Memory.store) (h : c.Spoiled q signature key s) :
    c.query q s = c.query q (s.without signature key) := by
  obtain ⟨hread, hwindow, rfl, hview, hover, hdecode⟩ := h
  rename_i r first last e error
  have hfound : c.lookup r.signature first last s = (none, s.without r.signature key) := by
    rw [lookup_eq hstore, hview]
    simp only [hover, if_true, hdecode, forget_eq hstore]
    rfl
  have hnone : c.lookup r.signature first last (s.without r.signature key) = (none, s.without r.signature key) := by
    rw [lookup_eq hstore, CacheState.view_without]
  unfold Cache.query
  simp only [hread, hwindow, hfound, hnone]

/-- No entry is spoiled for the query. -/
def Sound (c : Cache ε Memory) (q : Text) (s : CacheState ε Memory) : Prop :=
  ∀ signature key, ¬ c.Spoiled q signature key s

/-- Once the spoiled entry is gone, there is no other. -/
theorem Spoiled.sound_without (h : c.Spoiled q signature key s) : c.Sound q (s.without signature key) := by
  obtain ⟨hread, -, rfl, -, -, -⟩ := h
  rintro signature' key' ⟨hread', -, rfl, hview', -, -⟩
  rw [hread] at hread'
  cases hread'
  rw [CacheState.view_without] at hview'
  cases hview'

theorem sound_or_spoiled (c : Cache ε Memory) (q : Text) (s : CacheState ε Memory) :
    c.Sound q s ∨ ∃ signature key, c.Spoiled q signature key s := by
  by_cases h : ∃ signature key, c.Spoiled q signature key s
  · exact .inr h
  · exact .inl fun signature key hspoiled => h ⟨signature, key, hspoiled⟩

/-! ## Calls -/

/-- A query that no entry is spoiled for passes by the cache, asks the engine and stores what it answers, or
completes what is stored. -/
theorem query_of_sound (hstore : c.store = Memory.store) (h : c.Sound q s) :
    c.query q s = c.execute q s ∨
    ∃ r first last, Request.read c.context q = .ok r ∧ (c.query q s = c.executeAndKeep r q first last s ∨
      ∃ key e b, s.view r.signature = some (key, some e) ∧ Payload.decode c.settings.textLayout e.payload = .ok b ∧
        c.query q s = c.complete r q first last ⟨e.first, e.last, b.restrictTags r.groupTags⟩ s) := by
  unfold query
  split
  · exact .inl rfl
  · rename_i r hread
    cases hwindow : cacheableWindow? r with
    | none => exact .inl rfl
    | some window =>
      obtain ⟨first, last⟩ := window
      simp only
      rcases lookup_cases hstore r.signature first last s with ⟨-, hlookup⟩ |
        ⟨key, e, hview, hover, ⟨b, hdecode, hlookup⟩ | ⟨error, hdecode, -⟩⟩
      · rw [hlookup]
        exact .inr ⟨r, first, last, hread, .inl rfl⟩
      · rw [hlookup]
        exact .inr ⟨r, first, last, hread, .inr ⟨key, e, b, hview, hdecode, rfl⟩⟩
      · exact absurd (.intro hread hwindow rfl hview hover hdecode) (h r.signature key)

/-- **A query leaves all as it is but the engine, or stores an answer**, once what is spoiled for it is gone. -/
theorem query_snd (hstore : c.store = Memory.store) (q : Text) (s : CacheState ε Memory) :
    ∃ t, (t = s ∨ ∃ signature key, c.Spoiled q signature key s ∧ t = s.without signature key) ∧
      ∃ e, (c.query q s).2 = { t with engine := e } ∨
        ∃ r a first last, (c.query q s).2 = (c.keep r a first last { t with engine := e }).2 := by
  have hsound {t : CacheState ε Memory} (ht : c.Sound q t) : ∃ e, (c.query q t).2 = { t with engine := e } ∨
      ∃ r a first last, (c.query q t).2 = (c.keep r a first last { t with engine := e }).2 := by
    rcases query_of_sound hstore ht with hquery | ⟨r, first, last, -, hquery | ⟨key, e, b, -, -, hquery⟩⟩ <;>
      rw [hquery]
    · obtain ⟨e, he⟩ := execute_snd (c := c) q t
      exact ⟨e, .inl he⟩
    · obtain ⟨e, he | ⟨a, he⟩⟩ := executeAndKeep_snd (c := c) r q first last t
      · exact ⟨e, .inl he⟩
      · exact ⟨e, .inr ⟨r, a, first, last, he⟩⟩
    · obtain ⟨e', he | ⟨a, window, -, he⟩⟩ :=
        complete_snd (c := c) r q first last ⟨e.first, e.last, b.restrictTags r.groupTags⟩ t
      · exact ⟨e', .inl he⟩
      · exact ⟨e', .inr ⟨r, a, window.1, window.2, he⟩⟩
  rcases c.sound_or_spoiled q s with h | ⟨signature, key, hspoiled⟩
  · exact ⟨s, .inl rfl, hsound h⟩
  · rw [hspoiled.query hstore]
    exact ⟨_, .inr ⟨signature, key, hspoiled, rfl⟩, hsound hspoiled.sound_without⟩

/-- An answer that is given is passed over, refused or stored. -/
theorem storeAnswer_cases (q : Text) (b : Answer) (s : CacheState ε Memory) :
    (∃ outcome, c.storeAnswer q b s = (outcome, s)) ∨
    b.error = none ∧ ∃ r first last, c.storeAnswer q b s = c.keep r b first last s := by
  unfold storeAnswer
  split
  · exact .inl ⟨_, rfl⟩
  · rename_i r hread
    cases cacheableWindow? r with
    | none => exact .inl ⟨_, rfl⟩
    | some window =>
      obtain ⟨first, last⟩ := window
      cases hb : b.error with
      | some _ => exact .inl ⟨_, rfl⟩
      | none => exact .inr ⟨rfl, r, first, last, rfl⟩

end Cache
end SeriesCache
