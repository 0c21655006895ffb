import SeriesCache.Proofs.Cache.Steps
/-!
# Signatures side by side

What a cache answers to the queries of one signature hangs on its view alone: the key that is remembered
for the signature and the entry under it (`Alike.query`).  A query of another signature touches two keys at
most, the one remembered for that signature before it and the one after (`Touches.query`).  So the queries of
a signature are answered as if they were alone until another signature comes to remember the same key, and
the view stays what it would be alone exactly as long as no query of another signature changes the entry
under it (`isolated_iff_undisturbed`).  Two empty answers are stored under one key whatever their
measurements, and there it does not hold (`not_isolated`).
-/
namespace SeriesCache

variable {ε : Type}

/-- An engine that answers by the query text alone and never fails. -/
def Engine.ofFunction (f : Text → Answer) : Engine ε := fun q _ _ e => (.ok (f q), e)

namespace Cache

variable {c : Cache ε Memory} {f : Text → Answer}

/-! ## What a step touches -/

/-- A step for a signature leaves what other signatures remember, and all entries but those under the keys
that the signature remembers before and after. -/
structure Touches (signature : Text) (s s' : CacheState ε Memory) : Prop where
  keys : ∀ other, other ≠ signature → s'.keys.get? other = s.keys.get? other
  entries : ∀ key, s.keys.get? signature ≠ some key → s'.keys.get? signature ≠ some key →
    s'.store.entries.get? key = s.store.entries.get? key
  limit : s'.store.keyLimit = s.store.keyLimit

namespace Touches

variable {signature : Text} {s s' s'' : CacheState ε Memory}

theorem engine (e : ε) : Touches signature s { s with engine := e } :=
  ⟨fun _ _ => rfl, fun _ _ _ => rfl, rfl⟩

theorem of_engine {e : ε} (h : Touches signature { s with engine := e } s') : Touches signature s s' :=
  ⟨h.keys, h.entries, h.limit⟩

theorem trans (h : Touches signature s s') (h' : Touches signature s' s'')
    (hkey : s'.keys.get? signature = s.keys.get? signature ∨ s'.keys.get? signature = none) :
    Touches signature s s'' where
  keys other hother := (h'.keys other hother).trans (h.keys other hother)
  entries key hbefore hafter := by
    have hbetween : s'.keys.get? signature ≠ some key := by
      rcases hkey with hkey | hkey <;> rw [hkey]
      · exact hbefore
      · exact fun h => by cases h
    rw [h'.entries key hbetween hafter, h.entries key hbefore hbetween]
  limit := h'.limit.trans h.limit

theorem keep (hstore : c.store = Memory.store) (r : Request) (a : Answer) (first last : Int64)
    (s : CacheState ε Memory) : Touches r.signature s (c.keep r a first last s).2 := by
  rcases keep_cases hstore r a first last s with ⟨-, e, he⟩ | ⟨key, payload, -, -, hkeep⟩
  · rw [he]
    exact engine s.engine
  · rw [hkeep]
    refine ⟨fun other hother => ?_, fun k hbefore hafter => ?_, ?_⟩
    · rw [keys_remember hstore, Dict.get?_insert_of_ne _ hother.symm]
    · rw [keys_remember hstore, Dict.get?_insert_self] at hafter
      rw [get?_remember hstore, if_neg fun h => hbefore h.1,
        Dict.get?_insert_of_ne _ fun h => hafter (congrArg some h)]
    · rw [keyLimit_remember hstore]

theorem executeAndKeep (hstore : c.store = Memory.store) (r : Request) (q : Text) (first last : Int64)
    (s : CacheState ε Memory) : Touches r.signature s (c.executeAndKeep r q first last s).2 := by
  obtain ⟨e, he | ⟨a, he⟩⟩ := executeAndKeep_snd (c := c) r q first last s <;> rw [he]
  · exact engine e
  · exact of_engine (keep hstore r a first last { s with engine := e })

theorem complete (hstore : c.store = Memory.store) (r : Request) (q : Text) (first last : Int64)
    (cached : Fragment) (s : CacheState ε Memory) :
    Touches r.signature s (c.complete r q first last cached s).2 := by
  obtain ⟨e, he | ⟨a, window, -, he⟩⟩ := complete_snd (c := c) r q first last cached s <;> rw [he]
  · exact engine e
  · exact of_engine (keep hstore r a window.1 window.2 { s with engine := e })

theorem lookup (hstore : c.store = Memory.store) (signature : Text) (first last : Int64)
    (s : CacheState ε Memory) : Touches signature s (c.lookup signature first last s).2 ∧
      ((c.lookup signature first last s).2.keys.get? signature = s.keys.get? signature ∨
        (c.lookup signature first last s).2.keys.get? signature = none) := by
  rcases lookup_cases hstore signature first last s with ⟨-, hlookup⟩ |
    ⟨key, e, hview, -, ⟨b, -, hlookup⟩ | ⟨error, -, hlookup⟩⟩
  · rw [hlookup]
    exact ⟨engine s.engine, .inl rfl⟩
  · rw [hlookup]
    exact ⟨engine s.engine, .inl rfl⟩
  · have hkey : s.keys.get? signature = some key := by
      obtain ⟨_, hkey, heq⟩ := Option.map_eq_some_iff.1 hview
      rw [hkey, (Prod.mk.inj heq).1]
    rw [hlookup, forget_eq hstore]
    refine ⟨⟨fun other hother => ?_, fun k hbefore _ => ?_, rfl⟩, .inr ?_⟩
    · exact (Dict.get?_erase _ _ _).trans (if_neg hother.symm)
    · exact (Dict.get?_erase _ _ _).trans (if_neg fun h => hbefore (hkey.trans (congrArg some h)))
    · exact (Dict.get?_erase _ _ _).trans (if_pos rfl)

/-- **A query touches no more** than what is remembered for its signature. -/
theorem query (hstore : c.store = Memory.store) {q : Text} {r : Request} {first last : Int64}
    (hread : Request.read c.context q = .ok r) (hwindow : cacheableWindow? r = some (first, last))
    (s : CacheState ε Memory) : Touches r.signature s (c.query q s).2 := by
  obtain ⟨htouches, hkey⟩ := lookup hstore r.signature first last s
  rw [Cache.query, hread]
  simp only [hwindow]
  cases hlookup : c.lookup r.signature first last s with
  | mk found s' =>
    rw [hlookup] at htouches hkey
    cases found with
    | none => exact htouches.trans (executeAndKeep hstore r q first last s') hkey
    | some found => exact htouches.trans (complete hstore r q first last _ s') hkey

end Touches

/-! ## What an answer hangs on -/

/-- Two states in which the same is remembered for a signature, over stores with the same limit. -/
structure Alike (signature : Text) (s t : CacheState ε Memory) : Prop where
  view : s.view signature = t.view signature
  limit : s.store.keyLimit = t.store.keyLimit

section Function

variable (hstore : c.store = Memory.store) (hengine : c.engine = .ofFunction f)

include hengine in
theorem execute_ofFunction (query : Text) (s : CacheState ε Memory) : c.execute query s = (.ok (f query), s) := by
  rw [execute, hengine]
  rfl

include hengine in
theorem fetch_ofFunction (r : Request) : ∀ (parts : List (Int64 × Int64)) (s t : CacheState ε Memory),
    c.fetch r parts s = ((c.fetch r parts t).1, s)
  | [], _, _ => rfl
  | (first, last) :: parts, s, t => by
    rw [fetch, fetch, execute_ofFunction hengine, execute_ofFunction hengine]
    simp only
    cases (f (r.inWindow first last)).error with
    | some _ => rfl
    | none =>
      simp only
      rw [fetch_ofFunction r parts s t]
      cases c.fetch r parts t with
      | mk fetched _ => cases fetched <;> rfl

namespace Alike

variable {signature : Text} {s t : CacheState ε Memory}

include hstore in
theorem keep (h : Alike signature s t) {r : Request} (hr : r.signature = signature) (a : Answer)
    (first last : Int64) : Alike signature (c.keep r a first last s).2 (c.keep r a first last t).2 := by
  rcases keep_cases hstore r a first last s with ⟨hs, e, he⟩ | ⟨key, payload, hentry, hs, hkeep⟩ <;>
    rcases keep_cases hstore r a first last t with ⟨ht, e', he'⟩ | ⟨key', payload', hentry', ht, hkeep'⟩
  · rw [he, he']
    exact h
  · rw [← h.limit, hs _ _ hentry'] at ht
    cases ht
  · rw [h.limit, ht _ _ hentry] at hs
    cases hs
  · rw [hentry] at hentry'
    cases hentry'
    rw [hkeep, hkeep', hr]
    refine ⟨?_, ?_⟩
    · rw [view_remember hstore, view_remember hstore]
    · rw [keyLimit_remember hstore, keyLimit_remember hstore]
      exact h.limit

include hstore hengine in
theorem executeAndKeep (h : Alike signature s t) {r : Request} (hr : r.signature = signature) (q : Text)
    (first last : Int64) : (c.executeAndKeep r q first last s).1 = (c.executeAndKeep r q first last t).1 ∧
      Alike signature (c.executeAndKeep r q first last s).2 (c.executeAndKeep r q first last t).2 := by
  rw [Cache.executeAndKeep, Cache.executeAndKeep, execute_ofFunction hengine, execute_ofFunction hengine]
  simp only
  cases (f q).error with
  | some _ => exact ⟨rfl, h⟩
  | none =>
    simp only
    exact ⟨trivial, h.keep hstore hr (f q) first last⟩

include hstore hengine in
theorem complete (h : Alike signature s t) {r : Request} (hr : r.signature = signature) (q : Text)
    (first last : Int64) (cached : Fragment) :
    (c.complete r q first last cached s).1 = (c.complete r q first last cached t).1 ∧
      Alike signature (c.complete r q first last cached s).2 (c.complete r q first last cached t).2 := by
  rw [Cache.complete, Cache.complete]
  generalize remainders first last cached.first cached.last = parts
  cases parts with
  | nil => exact ⟨rfl, h⟩
  | cons part parts =>
    simp only
    rw [fetch_ofFunction hengine r (part :: parts) s s, fetch_ofFunction hengine r (part :: parts) t s]
    cases (c.fetch r (part :: parts) s).1 with
    | failed e => exact ⟨rfl, h⟩
    | refused =>
      simp only
      rw [execute_ofFunction hengine, execute_ofFunction hengine]
      exact ⟨rfl, h⟩
    | fragments fresh =>
      simp only
      split
      · refine ⟨rfl, ?_⟩
        simp only
        exact h.keep hstore hr _ _ _
      · refine ⟨rfl, ?_⟩
        simp only
        exact h.keep hstore hr _ _ _
      · exact h.executeAndKeep hstore hengine hr q first last

include hstore in
theorem lookup (h : Alike signature s t) (first last : Int64) :
    (c.lookup signature first last s).1 = (c.lookup signature first last t).1 ∧
      Alike signature (c.lookup signature first last s).2 (c.lookup signature first last t).2 := by
  have hforget (key : Text) (s : CacheState ε Memory) :
      (c.forget key { s with keys := s.keys.erase signature }).view signature = none := by
    rw [forget_eq hstore, CacheState.view, Dict.get?_erase, if_pos rfl, Option.map_none]
  rw [lookup_eq hstore, lookup_eq hstore, h.view]
  split
  · split
    · split
      · exact ⟨rfl, h⟩
      · refine ⟨rfl, ?_, ?_⟩
        · simp only [hforget]
        · simp only [forget_eq hstore]
          exact h.limit
    · exact ⟨rfl, h⟩
  · exact ⟨rfl, h⟩

include hstore hengine in
/-- **A query is answered by what is remembered for its signature**, and leaves alike what was. -/
theorem query (h : Alike signature s t) {q : Text} {r : Request} {first last : Int64}
    (hread : Request.read c.context q = .ok r) (hwindow : cacheableWindow? r = some (first, last))
    (hr : r.signature = signature) : (c.query q s).1 = (c.query q t).1 ∧
      Alike signature (c.query q s).2 (c.query q t).2 := by
  obtain ⟨hfound, hafter⟩ := h.lookup hstore (c := c) first last
  rw [Cache.query, Cache.query, hread]
  simp only [hwindow, hr]
  cases hs : c.lookup signature first last s with
  | mk found s' =>
    cases ht : c.lookup signature first last t with
    | mk found' t' =>
      rw [hs, ht] at hfound hafter
      simp only at hfound
      subst hfound
      cases found with
      | none => exact hafter.executeAndKeep hstore hengine hr q first last
      | some found => exact hafter.complete hstore hengine hr q first last _

end Alike

end Function

/-! ## Runs -/

/-- The query can be cached and is one of the signature. -/
def isOf (c : Cache ε Memory) (signature q : Text) : Bool :=
  match Request.read c.context q with
  | .ok r => (cacheableWindow? r).isSome && decide (r.signature = signature)
  | .error _ => false

def queries (c : Cache ε Memory) (qs : List Text) (s : CacheState ε Memory) : CacheState ε Memory :=
  c.run (qs.map .ask) s

/-- What the queries of a signature are answered in a run of queries. -/
def answersTo (c : Cache ε Memory) (signature : Text) :
    List Text → CacheState ε Memory → List (Except CacheError Answer)
  | [], _ => []
  | q :: qs, s =>
    let (answer, s) := c.query q s
    if c.isOf signature q then answer :: answersTo c signature qs s else answersTo c signature qs s

/-- No query of another signature changes what is remembered for the signature. -/
def Undisturbed (c : Cache ε Memory) (signature : Text) : List Text → CacheState ε Memory → Prop
  | [], _ => True
  | q :: qs, s =>
    (c.isOf signature q = false → (c.query q s).2.view signature = s.view signature) ∧
      Undisturbed c signature qs (c.query q s).2

/-- No other signature remembers the key that is remembered for the signature. -/
def OwnsKey (signature : Text) (s : CacheState ε Memory) : Prop :=
  ∀ key other, other ≠ signature → s.keys.get? signature = some key → s.keys.get? other ≠ some key

variable {signature : Text}

theorem isOf_eq_true_iff {q : Text} : c.isOf signature q = true ↔
    ∃ r first last, Request.read c.context q = .ok r ∧ cacheableWindow? r = some (first, last) ∧
      r.signature = signature := by
  rw [isOf]
  cases Request.read c.context q with
  | error e => simp
  | ok r =>
    cases hwindow : cacheableWindow? r with
    | none => simp [hwindow]
    | some window =>
      obtain ⟨first, last⟩ := window
      simp [hwindow]

/-- A query of another signature, or one that is not cached, touches what another signature remembers. -/
theorem touches_of_isOf_eq_false (hstore : c.store = Memory.store) {q : Text}
    (hq : c.isOf signature q = false) (s : CacheState ε Memory) :
    ∃ other, other ≠ signature ∧ Touches other s (c.query q s).2 := by
  have hany : ' ' :: signature ≠ signature := List.cons_ne_self _ _
  cases hread : Request.read c.context q with
  | error e =>
    refine ⟨_, hany, ?_⟩
    rw [query, hread]
    exact .engine _
  | ok r =>
    cases hwindow : cacheableWindow? r with
    | none =>
      refine ⟨_, hany, ?_⟩
      rw [query, hread]
      simp only [hwindow]
      exact .engine _
    | some window =>
      refine ⟨r.signature, fun hsame => ?_, .query hstore hread hwindow s⟩
      rw [isOf_eq_true_iff.2 ⟨r, window.1, window.2, hread, hwindow, hsame⟩] at hq
      cases hq

theorem queries_cons (q : Text) (qs : List Text) (s : CacheState ε Memory) :
    c.queries (q :: qs) s = c.queries qs (c.query q s).2 := rfl

/-- A step of another signature that shares no key disturbs nothing. -/
theorem view_of_ownsKey (hstore : c.store = Memory.store) {q : Text} {s : CacheState ε Memory}
    (hq : c.isOf signature q = false) (hs : OwnsKey signature s) (hs' : OwnsKey signature (c.query q s).2) :
    (c.query q s).2.view signature = s.view signature := by
  obtain ⟨other, hother, htouches⟩ := touches_of_isOf_eq_false hstore hq s
  have hkeys := htouches.keys signature hother.symm
  rw [CacheState.view, CacheState.view, hkeys]
  cases hkey : s.keys.get? signature with
  | none => rfl
  | some key =>
    have hafter := hs' key other hother (hkeys.trans hkey)
    rw [Option.map_some, Option.map_some, htouches.entries key (hs key other hother hkey) hafter]

/-- **A run in which the signature owns its key throughout** is undisturbed. -/
theorem undisturbed_of_ownsKey (hstore : c.store = Memory.store) : ∀ {qs : List Text} {s : CacheState ε Memory},
    (∀ front, front <+: qs → OwnsKey signature (c.queries front s)) → c.Undisturbed signature qs s
  | [], _, _ => trivial
  | q :: qs, s, h => by
    have hs := h [] List.nil_prefix
    have hs' := h [q] (List.prefix_append [q] qs)
    refine ⟨fun hq => view_of_ownsKey hstore hq hs hs', undisturbed_of_ownsKey hstore fun front hfront => ?_⟩
    exact h (q :: front) (List.cons_prefix_cons.2 ⟨rfl, hfront⟩)

theorem limit_query (hstore : c.store = Memory.store) {q : Text} (hq : c.isOf signature q = false)
    (s : CacheState ε Memory) : (c.query q s).2.store.keyLimit = s.store.keyLimit := by
  obtain ⟨_, -, htouches⟩ := touches_of_isOf_eq_false hstore hq s
  exact htouches.limit

section Function

variable (hstore : c.store = Memory.store) (hengine : c.engine = .ofFunction f)

include hstore hengine in
/-- **An undisturbed run** answers and remembers for the signature what the run of its queries alone does. -/
theorem Undisturbed.alike : ∀ {qs : List Text} {s t : CacheState ε Memory}, c.Undisturbed signature qs s →
    Alike signature s t →
    c.answersTo signature qs s = c.answersTo signature (qs.filter (c.isOf signature)) t ∧
      Alike signature (c.queries qs s) (c.queries (qs.filter (c.isOf signature)) t)
  | [], _, _, _, h => ⟨rfl, h⟩
  | q :: qs, s, t, ⟨hq, hqs⟩, h => by
    rw [queries_cons, answersTo]
    cases hof : c.isOf signature q with
    | true =>
      obtain ⟨r, first, last, hread, hwindow, hr⟩ := isOf_eq_true_iff.1 hof
      obtain ⟨hanswer, halike⟩ := h.query hstore hengine hread hwindow hr
      obtain ⟨hanswers, hqueries⟩ := hqs.alike halike
      rw [List.filter_cons_of_pos hof, queries_cons, answersTo]
      simp only [hof, if_true]
      exact ⟨by rw [hanswer, hanswers], hqueries⟩
    | false =>
      have halike : Alike signature (c.query q s).2 t :=
        ⟨(hq hof).trans h.view, (limit_query hstore hof s).trans h.limit⟩
      rw [List.filter_cons_of_neg (by simp [hof])]
      simp only [Bool.false_eq_true, if_false]
      exact hqs.alike halike

omit hstore hengine in
theorem Undisturbed.shorten : ∀ {front qs : List Text} {s : CacheState ε Memory}, c.Undisturbed signature qs s →
    front <+: qs → c.Undisturbed signature front s
  | [], _, _, _, _ => trivial
  | q :: front, qs, s, h, hfront => by
    obtain ⟨rest, rfl⟩ := hfront
    exact ⟨h.1, h.2.shorten (List.prefix_append front rest)⟩

omit hstore hengine in
theorem undisturbed_filter : ∀ (qs : List Text) (s : CacheState ε Memory),
    c.Undisturbed signature (qs.filter (c.isOf signature)) s
  | [], _ => trivial
  | q :: qs, s => by
    cases hof : c.isOf signature q with
    | true =>
      rw [List.filter_cons_of_pos hof]
      exact ⟨fun hq => absurd (hof.symm.trans hq) (by decide), undisturbed_filter qs _⟩
    | false =>
      rw [List.filter_cons_of_neg (by simp [hof])]
      exact undisturbed_filter qs s

include hstore hengine in
/-- **Exactly in an undisturbed run** is the same remembered for the signature, after every query, as in the run of
its queries alone. -/
theorem undisturbed_iff : ∀ {qs : List Text} {s : CacheState ε Memory}, c.Undisturbed signature qs s ↔
    ∀ front, front <+: qs → (c.queries front s).view signature =
      (c.queries (front.filter (c.isOf signature)) s).view signature := by
  intro qs s
  constructor
  · exact fun h front hfront => ((h.shorten hfront).alike hstore hengine ⟨rfl, rfl⟩).2.view
  · induction qs generalizing s with
    | nil => exact fun _ => trivial
    | cons q qs ih =>
      intro h
      have hq : c.isOf signature q = false → (c.query q s).2.view signature = s.view signature := fun hof => by
        have := h [q] (List.prefix_append [q] qs)
        rw [List.filter_cons_of_neg (by simp [hof])] at this
        exact this
      refine ⟨hq, ih fun front hfront => ?_⟩
      have hstep := h (q :: front) (List.cons_prefix_cons.2 ⟨rfl, hfront⟩)
      cases hof : c.isOf signature q with
      | true =>
        rw [List.filter_cons_of_pos hof] at hstep
        exact hstep
      | false =>
        rw [List.filter_cons_of_neg (by simp [hof])] at hstep
        have halike : Alike signature (c.query q s).2 s := ⟨hq hof, limit_query hstore hof s⟩
        have halone := ((undisturbed_filter front _).alike hstore hengine halike).2.view
        rw [List.filter_filter] at halone
        simp only [Bool.and_self] at halone
        exact hstep.trans halone.symm

end Function

/-- **When signatures do not disturb each other.**  In a run of queries from an empty cache, the same is remembered
for a signature as in the run of its queries alone exactly if no query of another signature changes it; then its
queries are answered as they are alone; and so it is while no other signature remembers the key that it does. -/
theorem isolated_iff_undisturbed (f : Text → Answer) (context : Context) (settings : Settings) (signature : Text)
    (qs : List Text) (e : ε) (keyLimit : Option Nat) :
    let c : Cache ε Memory := ⟨.ofFunction f, Memory.store, context, settings⟩
    let s := start e keyLimit
    (c.Undisturbed signature qs s ↔ ∀ front, front <+: qs → (c.queries front s).view signature =
      (c.queries (front.filter (c.isOf signature)) s).view signature) ∧
    (c.Undisturbed signature qs s →
      c.answersTo signature qs s = c.answersTo signature (qs.filter (c.isOf signature)) s) ∧
    ((∀ front, front <+: qs → OwnsKey signature (c.queries front s)) → c.Undisturbed signature qs s) := by
  intro c s
  refine ⟨undisturbed_iff rfl rfl, fun h => ?_, undisturbed_of_ownsKey rfl⟩
  exact (h.alike rfl rfl ⟨rfl, rfl⟩).1

/-- **Empty answers share a key.**  What was stored for another measurement without rows is taken for the rows
of this one. -/
theorem not_isolated :
    let empty := "SELECT v FROM a WHERE time >= 0 AND time <= 10".toList
    let other := "SELECT v FROM b WHERE time >= 20 AND time <= 30".toList
    let full := "SELECT v FROM a WHERE time >= 20 AND time <= 30".toList
    let answer : Answer :=
      ⟨[⟨"a".toList, .empty, ["time".toList, "v".toList], [[.int64 25, .float64 (.ofInt64 1)]]⟩], none⟩
    let c : Cache Unit Memory := ⟨.ofFunction fun q => if q = full then answer else .empty, Memory.store,
      ⟨.empty, 0⟩, .ofDatabase "db".toList⟩
    let signature := "SELECT v FROM a".toList
    let alone := [empty, other, full].filter (c.isOf signature)
    c.answersTo signature [empty, other, full] (start () none) ≠ c.answersTo signature alone (start () none) ∧
    (c.answersTo signature [empty, other, full] (start () none)).map Except.toOption = [some .empty, some .empty] ∧
    (c.answersTo signature alone (start () none)).map Except.toOption = [some .empty, some answer] := by
  intro empty other full answer c signature alone
  have hrun : (c.answersTo signature [empty, other, full] (start () none)).map Except.toOption =
      [some .empty, some .empty] := by decide +kernel
  have halone : (c.answersTo signature alone (start () none)).map Except.toOption =
      [some .empty, some answer] := by decide +kernel
  refine ⟨fun heq => ?_, hrun, halone⟩
  rw [heq, halone] at hrun
  exact absurd hrun (by decide +kernel)

end Cache
end SeriesCache
