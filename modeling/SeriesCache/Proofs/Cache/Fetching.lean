import SeriesCache.Proofs.Cache.Hosts
import SeriesCache.Proofs.Cache.Remembered
/-!
# What the engine is asked

An engine that keeps a log (`Engine.recording`) shows what a cache asks of it.  In a run of queries of one
signature, a query whose window lies in that of the entry asks for nothing, and one whose window is apart from it
for itself alone.  Where the windows overlap, the gaps are asked for, the earlier first and up to the first that
goes wrong (`Cache.Fetches`); behind them comes the query itself if one of them was answered with an error or they
cannot be joined with what was stored (`Cache.Course`, `Cache.asks_for_gaps`).
-/
namespace SeriesCache

variable {ε : Type}

/-! ## The log -/

/-- A query put to an engine and what came of it. -/
structure Exchange where
  query : Text
  outcome : Except EngineError Answer

/-- The engine with a log of its exchanges, the latest at the end. -/
def Engine.recording (engine : Engine ε) : Engine (ε × List Exchange) := fun q database precision s =>
  let (outcome, e) := engine q database precision s.1
  (outcome, e, s.2 ++ [⟨q, outcome⟩])

def Fragment.window (f : Fragment) : Int64 × Int64 := (f.first, f.last)

/-- The request was asked for the window of a fragment, and answered with that of the fragment. -/
def Fragment.exchange (r : Request) (f : Fragment) : Exchange := ⟨r.inWindow f.first f.last, .ok f.answer⟩

namespace Cache

/-- A request is asked for windows one after the other: for all of them if each is answered without an error, and
else up to the first at which the engine fails or that it answers with an error. -/
inductive Fetches (r : Request) (parts : List (Int64 × Int64)) : List Exchange → Fetched → Prop
  | all (fresh : List Fragment) (hclean : ∀ f ∈ fresh, f.answer.error = none)
    (hparts : fresh.map Fragment.window = parts) :
    Fetches r parts (fresh.map (Fragment.exchange r)) (.fragments fresh)
  | failed (fresh : List Fragment) {part : Int64 × Int64} {rest : List (Int64 × Int64)} {error : EngineError}
    (hclean : ∀ f ∈ fresh, f.answer.error = none) (hparts : fresh.map Fragment.window ++ part :: rest = parts) :
    Fetches r parts (fresh.map (Fragment.exchange r) ++ [⟨r.inWindow part.1 part.2, .error error⟩])
      (.failed (.engine error))
  | refused (fresh : List Fragment) {part : Int64 × Int64} {rest : List (Int64 × Int64)} {a : Answer}
    (hclean : ∀ f ∈ fresh, f.answer.error = none) (hparts : fresh.map Fragment.window ++ part :: rest = parts)
    (herror : a.error ≠ none) :
    Fetches r parts (fresh.map (Fragment.exchange r) ++ [⟨r.inWindow part.1 part.2, .ok a⟩]) .refused

/-- What a query asks for when some of the parts of its window are stored.  It asks for the other parts; and then
for itself, if the engine answered with an error or the answers cannot be joined to one.  If they can, what they are
joined to is stored, when it can be, over both windows together. -/
inductive Course (c : Cache ε Memory) (r : Request) (q : Text) (window : Int64 × Int64) (cached : Fragment)
    (parts : List (Int64 × Int64)) (s s' : CacheState ε Memory) : List Exchange → Prop
  | failed {asked : List Exchange} {error : CacheError} (hasked : Fetches r parts asked (.failed error)) :
    Course c r q window cached parts s s' asked
  | refused {asked : List Exchange} {whole : Exchange} (hasked : Fetches r parts asked .refused)
    (hwhole : whole.query = q) : Course c r q window cached parts s s' (asked ++ [whole])
  | apart {asked : List Exchange} {fresh : List Fragment} {whole : Exchange}
    (hasked : Fetches r parts asked (.fragments fresh))
    (hjoin : 1 < (Fragment.joinAll c.settings.tolerance (cached :: fresh)).length) (hwhole : whole.query = q) :
    Course c r q window cached parts s s' (asked ++ [whole])
  | joined {asked : List Exchange} {fresh : List Fragment} {a : Answer}
    (hasked : Fetches r parts asked (.fragments fresh))
    (hjoin : Fragment.joinAll c.settings.tolerance (cached :: fresh) = [a] ∨
      Fragment.joinAll c.settings.tolerance (cached :: fresh) = [] ∧ a = .empty)
    (hkept : c.Keeps s.store.keyLimit r a → ∃ key payload, s'.view r.signature =
      some (key, some ⟨payload, min window.1 cached.first, max window.2 cached.last, a.tables.length⟩))
    (hnot : ¬ c.Keeps s.store.keyLimit r a → s'.view r.signature = s.view r.signature) :
    Course c r q window cached parts s s' asked

/-! ## Steps -/

section Recording

variable {engine : Engine ε} {c : Cache (ε × List Exchange) Memory} (hstore : c.store = Memory.store)
  (hengine : c.engine = engine.recording)

include hengine in
theorem execute_recording (text : Text) (s : CacheState (ε × List Exchange) Memory) : ∃ x e, x.query = text ∧
    c.execute text s = (x.outcome.mapError .engine, { s with engine := (e, s.engine.2 ++ [x]) }) := by
  refine ⟨⟨text, (engine text c.settings.database c.settings.queryPrecision s.engine.1).1⟩,
    (engine text c.settings.database c.settings.queryPrecision s.engine.1).2, rfl, ?_⟩
  rw [execute, hengine]
  rfl

include hstore hengine in
theorem executeAndKeep_recording (r : Request) (q : Text) (first last : Int64)
    (s : CacheState (ε × List Exchange) Memory) : ∃ x : Exchange, x.query = q ∧
      (c.executeAndKeep r q first last s).2.engine.2 = s.engine.2 ++ [x] := by
  obtain ⟨x, e, hx, hexecute⟩ := execute_recording hengine q s
  refine ⟨x, hx, ?_⟩
  rw [executeAndKeep, hexecute]
  cases x.outcome with
  | error error => rfl
  | ok a =>
    simp only [Except.mapError]
    cases a.error with
    | some _ => rfl
    | none => exact congrArg Prod.snd (engine_keep hstore r a first last _)

/-- What comes of a fetch when one more fragment is there before. -/
def Fetched.cons (f : Fragment) : Fetched → Fetched
  | .fragments fresh => .fragments (f :: fresh)
  | outcome => outcome

/-- A part that is answered without an error comes before what is asked for the other parts. -/
theorem Fetches.cons {r : Request} {parts : List (Int64 × Int64)} {xs : List Exchange} {outcome : Fetched}
    (h : Fetches r parts xs outcome) {part : Int64 × Int64} {a : Answer} (ha : a.error = none) :
    Fetches r (part :: parts) (⟨r.inWindow part.1 part.2, .ok a⟩ :: xs) (outcome.cons ⟨part.1, part.2, a⟩) := by
  cases h with
  | all fresh hclean hparts =>
    subst hparts
    exact .all (⟨part.1, part.2, a⟩ :: fresh) (List.forall_mem_cons.2 ⟨ha, hclean⟩) rfl
  | failed fresh hclean hparts =>
    subst hparts
    exact .failed (⟨part.1, part.2, a⟩ :: fresh) (List.forall_mem_cons.2 ⟨ha, hclean⟩) rfl
  | refused fresh hclean hparts herror =>
    subst hparts
    exact .refused (⟨part.1, part.2, a⟩ :: fresh) (List.forall_mem_cons.2 ⟨ha, hclean⟩) rfl herror

include hengine in
/-- **The missing parts are asked for in turn**, and nothing else changes. -/
theorem fetch_recording (r : Request) : ∀ (parts : List (Int64 × Int64)) (s : CacheState (ε × List Exchange) Memory),
    ∃ outcome xs e, c.fetch r parts s = (outcome, { s with engine := (e, s.engine.2 ++ xs) }) ∧
      Fetches r parts xs outcome
  | [], s => ⟨.fragments [], [], s.engine.1, by rw [List.append_nil]; rfl, .all [] (List.forall_mem_nil _) rfl⟩
  | part :: parts, s => by
    obtain ⟨⟨_, outcome⟩, e, rfl, hexecute⟩ := execute_recording hengine (r.inWindow part.1 part.2) s
    rw [fetch, hexecute]
    cases outcome with
    | error error => exact ⟨_, _, e, rfl, .failed [] (List.forall_mem_nil _) rfl⟩
    | ok a =>
      simp only [Except.mapError]
      cases ha : a.error with
      | some _ => exact ⟨_, _, e, rfl, .refused [] (List.forall_mem_nil _) rfl (by simp [ha])⟩
      | none =>
        obtain ⟨outcome, xs, e', hfetch, hfetches⟩ := fetch_recording r parts
          { s with engine := (e, s.engine.2 ++ [⟨r.inWindow part.1 part.2, .ok a⟩]) }
        refine ⟨_, _, e', ?_, hfetches.cons ha⟩
        rw [hfetch]
        simp only [List.append_assoc, List.singleton_append]
        cases outcome <;> rfl

include hstore in
theorem Course.of_keep {r : Request} {q : Text} {first last : Int64} {cached : Fragment}
    {parts : List (Int64 × Int64)} {s : CacheState (ε × List Exchange) Memory} {asked : List Exchange}
    {fresh : List Fragment} {a : Answer} (hasked : Fetches r parts asked (.fragments fresh))
    (hjoin : Fragment.joinAll c.settings.tolerance (cached :: fresh) = [a] ∨
      Fragment.joinAll c.settings.tolerance (cached :: fresh) = [] ∧ a = .empty) (e : ε × List Exchange) :
    Course c r q (first, last) cached parts s
      (c.keep r a (min first cached.first) (max last cached.last) { s with engine := e }).2 asked := by
  refine .joined hasked hjoin (fun hkeeps => ?_) fun hnot => ?_
  · obtain ⟨key, payload, hentry, hshort⟩ := hkeeps
    exact ⟨key, payload, view_keep hstore (s := { s with engine := e }) hentry hshort _ _⟩
  · rw [keep_of_not_keeps hstore (s := { s with engine := e }) hnot]
    rfl

include hstore hengine in
/-- **A query of which a part is missing takes its course.** -/
theorem complete_recording (r : Request) (q : Text) (first last : Int64) (cached : Fragment)
    (s : CacheState (ε × List Exchange) Memory) (hparts : remainders first last cached.first cached.last ≠ []) :
    ∃ xs, (c.complete r q first last cached s).2.engine.2 = s.engine.2 ++ xs ∧
      Course c r q (first, last) cached (remainders first last cached.first cached.last) s
        (c.complete r q first last cached s).2 xs := by
  have hfst : (if cached.first < first then cached.first else first) = min first cached.first :=
    congrArg Prod.fst (hull_eq (first, last) (cached.first, cached.last))
  have hsnd : (if last < cached.last then cached.last else last) = max last cached.last :=
    congrArg Prod.snd (hull_eq (first, last) (cached.first, cached.last))
  obtain ⟨part, parts, hrest⟩ := List.exists_cons_of_ne_nil hparts
  obtain ⟨outcome, asked, e, hfetch, hasked⟩ := fetch_recording hengine r (part :: parts) s
  rw [complete, hrest]
  simp only [hfst, hsnd]
  rw [hfetch]
  cases outcome with
  | failed error => exact ⟨asked, rfl, .failed hasked⟩
  | refused =>
    obtain ⟨whole, e', hwhole, hexecute⟩ := execute_recording hengine q { s with engine := (e, s.engine.2 ++ asked) }
    simp only
    rw [hexecute]
    exact ⟨asked ++ [whole], List.append_assoc _ _ _, .refused hasked hwhole⟩
  | fragments fresh =>
    simp only
    cases hjoin : Fragment.joinAll c.settings.tolerance (cached :: fresh) with
    | nil =>
      simp only
      rw [engine_keep hstore]
      exact ⟨asked, rfl, .of_keep hstore hasked (.inr ⟨hjoin, rfl⟩) _⟩
    | cons a others =>
      cases others with
      | nil =>
        simp only
        rw [engine_keep hstore]
        exact ⟨asked, rfl, .of_keep hstore hasked (.inl hjoin) _⟩
      | cons b others =>
        simp only
        obtain ⟨whole, hwhole, hlog⟩ := executeAndKeep_recording hstore hengine r q first last
          { s with engine := (e, s.engine.2 ++ asked) }
        refine ⟨asked ++ [whole], hlog.trans (List.append_assoc _ _ _), .apart hasked ?_ hwhole⟩
        rw [hjoin, List.length_cons, List.length_cons]
        omega

end Recording

/-! ## Runs -/

/-- **Only the missing parts are asked for.**  After any run of queries of one signature, let a query of the signature
be put to the cache.  If nothing is stored for the signature, or over a window apart from that of the query, the
engine is asked for the query alone; if the window of the query lies in the one that is stored, for nothing; and
else for the gaps that the stored window leaves, and then as the course of the query says. -/
theorem asks_for_gaps {engine : Engine ε} {c : Cache (ε × List Exchange) Memory} (hstore : c.store = Memory.store)
    (hengine : c.engine = engine.recording) {signature : Text} {qs : List Text}
    (hqs : ∀ q ∈ qs, ∃ r first last, c.Asks signature q r first last) (e : ε) (keyLimit : Option Nat) {q : Text}
    {r : Request} {first last : Int64} (hr : c.Asks signature q r first last) :
    let s := c.run (qs.map .ask) (start (e, []) keyLimit)
    let s' := (c.query q s).2
    ((∀ key m, s.view signature ≠ some (key, some m)) → ∃ x, x.query = q ∧ s'.engine.2 = s.engine.2 ++ [x]) ∧
    ∀ key m, s.view signature = some (key, some m) → m.first ≤ m.last ∧
      (m.first ≤ first → last ≤ m.last → s'.engine.2 = s.engine.2) ∧
      (last < m.first ∨ m.last < first → ∃ x, x.query = q ∧ s'.engine.2 = s.engine.2 ++ [x]) ∧
      (m.first ≤ last → first ≤ m.last → first < m.first ∨ m.last < last →
        ∃ b parts xs, Payload.decode c.settings.textLayout m.payload = .ok b ∧
          Gaps (first, last) (m.first, m.last) parts ∧ s'.engine.2 = s.engine.2 ++ xs ∧
          c.Course r q (first, last) ⟨m.first, m.last, b.restrictTags r.groupTags⟩ parts s s' xs) := by
  intro s s'
  have halone (hapart : ∀ key m, s.view signature = some (key, some m) → m.overlaps first last = false) :
      ∃ x, x.query = q ∧ s'.engine.2 = s.engine.2 ++ [x] := by
    have hs' : s' = (c.executeAndKeep r q first last s).2 := congrArg Prod.snd (hr.query_of_apart hstore hapart)
    rw [hs']
    exact executeAndKeep_recording hstore hengine r q first last s
  refine ⟨fun hnone => halone fun key m hview => absurd hview (hnone key m), fun key m hview => ?_⟩
  have hread : c.Readable signature s := Readable.run hstore hqs fun _ _ h => absurd h nofun
  obtain ⟨hwindow, b, hdecode⟩ := hread key m hview
  refine ⟨hwindow, fun hfirst hlast => ?_, fun hapart => ?_, fun hfirst hlast hout => ?_⟩
  · have hs' : s' = s := congrArg Prod.snd (hr.query_of_inside hstore hview hfirst hlast hdecode)
    rw [hs']
  · refine halone fun key' m' hview' => Bool.eq_false_iff.2 fun hover => ?_
    rw [hview] at hview'
    cases hview'
    exact absurd (overlaps_iff.1 hover) (not_and_or.2 (hapart.imp Int64.not_le.2 Int64.not_le.2))
  · have hparts : remainders first last m.first m.last ≠ [] := fun h =>
      absurd (remainders_eq_nil_iff.1 h) (not_and_or.2 (hout.imp Int64.not_le.2 Int64.not_le.2))
    obtain ⟨xs, hlog, hcourse⟩ := complete_recording hstore hengine r q first last
      ⟨m.first, m.last, b.restrictTags r.groupTags⟩ s hparts
    have hs' : s' = (c.complete r q first last ⟨m.first, m.last, b.restrictTags r.groupTags⟩ s).2 :=
      congrArg Prod.snd (hr.query_of_overlaps hstore hview (overlaps_iff.2 ⟨hfirst, hlast⟩) hdecode)
    rw [← hs'] at hlog hcourse
    exact ⟨b, _, xs, hdecode, gaps_remainders hwindow hlast hfirst, hlog, hcourse⟩

namespace Quiet

/-- The engine has nothing to say of any host. -/
def engine : Engine Unit := fun _ _ _ e => (.ok .empty, e)

def cache : Cache (Unit × List Exchange) Memory :=
  ⟨engine.recording, Memory.store, Hosts.context, .ofDatabase "db".toList⟩

theorem asks_query {first last : Int64} (h : first ≤ last) : cache.Asks Hosts.signature (Hosts.query first last)
    (Hosts.request first last) first last where
  read := Hosts.read_query first last
  window := rfl
  signature := rfl
  ordered := h

end Quiet

open Quiet in
/-- Of the second window, the first one leaves a gap on each side. -/
theorem asks_for_gaps_hosts :
    let s := cache.run ([Hosts.query 10 20].map .ask) (start ((), []) none)
    let s' := (cache.query (Hosts.query 5 30) s).2
    ∃ b parts xs, Gaps (5, 30) (10, 20) parts ∧ s'.engine.2 = s.engine.2 ++ xs ∧
      cache.Course (Hosts.request 5 30) (Hosts.query 5 30) (5, 30) ⟨10, 20, b⟩ parts s s' xs := by
  have hview : ((cache.run ([Hosts.query 10 20].map .ask) (start ((), []) none)).view Hosts.signature).map Prod.snd =
      some (some ⟨Payload.emptyAnswer, 10, 20, 0⟩) := by decide +kernel
  obtain ⟨⟨key, entry⟩, hkey, rfl⟩ := Option.map_eq_some_iff.1 hview
  have hqs : ∀ q ∈ [Hosts.query 10 20], ∃ r first last, cache.Asks Hosts.signature q r first last :=
    List.forall_mem_singleton.2 ⟨_, _, _, asks_query (by decide)⟩
  have hengine : cache.engine = Quiet.engine.recording := rfl
  have hr : cache.Asks Hosts.signature (Hosts.query 5 30) (Hosts.request 5 30) 5 30 := asks_query (by decide)
  obtain ⟨-, hentry⟩ := asks_for_gaps rfl hengine hqs () none hr
  obtain ⟨-, -, -, hgaps⟩ := hentry key _ hkey
  obtain ⟨b, parts, xs, -, hparts, hlog, hcourse⟩ := hgaps (by decide) (by decide) (by decide)
  exact ⟨_, parts, xs, hparts, hlog, hcourse⟩

end Cache
end SeriesCache
