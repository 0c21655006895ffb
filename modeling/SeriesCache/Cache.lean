import SeriesCache.Key.Build
import SeriesCache.Payload.Decode
import SeriesCache.Payload.Encode
import SeriesCache.Series.Fragment
import SeriesCache.Store
/-!
# The cache

A cache stands between its callers and an engine.  It remembers for each signature the key
under which the latest answer is stored.  A query with an answer stored for an overlapping
window is asked of the engine only for the parts of its window that are missing; what comes
back is joined with what was stored, and stored in its place.  Whatever cannot be cached goes to
the engine as it is.

Every step takes the state of the engine, of the store and of the cache, and gives back what
they are afterwards, also when it fails.
-/
namespace SeriesCache

/-! ## What a cache is made of -/

structure EngineError where
  reason : Text
  deriving DecidableEq

def EngineError.message (e : EngineError) : Text := "query engine failed: ".toList ++ e.reason

/-- An engine with states `ε`: it is given a query, a database and the precision of timestamps. -/
abbrev Engine (ε : Type) := Text → Text → Precision → ε → Except EngineError Answer × ε

structure Settings where
  database : Text
  /-- Answers whose windows are at most one unit of this apart are joined. -/
  mergePrecision : Precision
  /-- The longest key that is stored, in bytes. -/
  keyLimit : Nat
  textLayout : TextLayout
  /-- The precision of timestamps that the engine is asked for. -/
  queryPrecision : Precision
  deriving DecidableEq

namespace Settings

def ofDatabase (database : Text) : Settings :=
  ⟨database, .second, defaultKeyLimit, .fixed, .nanosecond⟩

def tolerance (s : Settings) : Tolerance := .ofPrecision s.mergePrecision

end Settings

structure Cache (ε σ : Type) where
  engine : Engine ε
  store : Store σ
  context : Context
  settings : Settings

structure CacheState (ε σ : Type) where
  engine : ε
  store : σ
  /-- The key of the latest stored answer, by signature. -/
  keys : Dict Text

inductive CacheError where
  | request (error : RequestError)
  | key (error : KeyError)
  | payload (error : PayloadError)
  | store (error : StoreError)
  | engine (error : EngineError)
  | notCacheable (query : Text)
  deriving DecidableEq

def CacheError.message : CacheError → Text
  | request e => e.message
  | key e => e.message
  | payload e => e.message
  | store e => e.message
  | engine e => e.message
  | notCacheable query => "query is not cacheable: ".toList ++ query

def Catalog.fetch {ε : Type} (engine : Engine ε) (database : Text) (e : ε) :
    Except EngineError Catalog × ε :=
  match engine "SHOW TAG KEYS".toList database .nanosecond e with
  | (.error error, e) => (.error error, e)
  | (.ok tagKeys, e) => match engine "SHOW FIELD KEYS".toList database .nanosecond e with
    | (.error error, e) => (.error error, e)
    | (.ok fieldKeys, e) => (.ok (.ofAnswers tagKeys fieldKeys), e)

namespace Cache

variable {ε σ : Type} (c : Cache ε σ)

/-- The window of a request that can be cached. -/
def cacheableWindow? (r : Request) : Option (Int64 × Int64) :=
  if r.isCacheable then r.window.bounds? else none

/-! ## Steps -/

def execute (query : Text) (s : CacheState ε σ) : Except CacheError Answer × CacheState ε σ :=
  let (outcome, engine) := c.engine query c.settings.database c.settings.queryPrecision s.engine
  (outcome.mapError .engine, { s with engine })

/-- Deletes an entry; that the store may fail at it does not matter. -/
def forget (key : Text) (s : CacheState ε σ) : CacheState ε σ :=
  { s with store := (c.store.delete key s.store).2 }

def entryOf (r : Request) (a : Answer) : Except CacheError (Text × Bytes) := do
  let catalog := c.context.catalog
  let key ← ((r.keyOf catalog a).textWithin c.settings.keyLimit).mapError .key
  let payload ← (Payload.encode c.settings.textLayout a (r.tableKeysOf catalog a)).mapError .payload
  return (key, payload)

/-- Remembers the key of a signature and deletes what was stored under another one. -/
def remember (signature key : Text) (s : CacheState ε σ) : CacheState ε σ :=
  let previous := s.keys.get? signature
  let s := { s with keys := s.keys.insert signature key }
  match previous with
  | some old => if old = key then s else c.forget old s
  | none => s

def keep (r : Request) (a : Answer) (first last : Int64) (s : CacheState ε σ) :
    Except CacheError Unit × CacheState ε σ :=
  match c.entryOf r a with
  | .error e => (.error e, s)
  | .ok (key, payload) =>
    let (outcome, store) := c.store.set key ⟨payload, first, last, a.tables.length⟩ s.store
    let s := { s with store }
    match outcome with
    | .error e => (.error (.store e), s)
    | .ok () => (.ok (), c.remember r.signature key s)

/-- The stored answer for a signature and the window it covers, which overlaps the one asked
for.  An entry that cannot be read is deleted, and its key forgotten. -/
def lookup (signature : Text) (first last : Int64) (s : CacheState ε σ) :
    Option (Answer × Int64 × Int64) × CacheState ε σ :=
  match s.keys.get? signature with
  | none => (none, s)
  | some key =>
    let (outcome, store) := c.store.get key first last s.store
    let s := { s with store }
    match outcome with
    | .error _ => (none, s)
    | .ok entry => match Payload.decode c.settings.textLayout entry.payload with
      | .ok a => (some (a, entry.first, entry.last), s)
      | .error _ => (none, c.forget key { s with keys := s.keys.erase signature })

/-- Asks the engine, and stores its answer unless that has an error.  That the store may fail at
it does not matter. -/
def executeAndKeep (r : Request) (query : Text) (first last : Int64) (s : CacheState ε σ) :
    Except CacheError Answer × CacheState ε σ :=
  match c.execute query s with
  | (.error e, s) => (.error e, s)
  | (.ok a, s) => match a.error with
    | some _ => (.ok a, s)
    | none => (.ok a, (c.keep r a first last s).2)

/-! ## Queries -/

/-- The parts of a window outside another one, the earlier part first. -/
def remainders (first last cachedFirst cachedLast : Int64) : List (Int64 × Int64) :=
  (if first < cachedFirst then [(first, cachedFirst - 1)] else [])
    ++ if cachedLast < last then [(cachedLast + 1, last)] else []

inductive Fetched where
  | fragments (fragments : List Fragment)
  | failed (error : CacheError)
  /-- The engine answered one of them with an error. -/
  | refused

/-- Asks the engine for one part after the other, up to the first that goes wrong. -/
def fetch (r : Request) : List (Int64 × Int64) → CacheState ε σ → Fetched × CacheState ε σ
  | [], s => (.fragments [], s)
  | (first, last) :: parts, s => match c.execute (r.inWindow first last) s with
    | (.error e, s) => (.failed e, s)
    | (.ok a, s) => match a.error with
      | some _ => (.refused, s)
      | none => match fetch r parts s with
        | (.fragments fs, s) => (.fragments (⟨first, last, a⟩ :: fs), s)
        | (outcome, s) => (outcome, s)

/-- Answers a query of which a part of the window is stored. -/
def complete (r : Request) (query : Text) (first last : Int64) (cached : Fragment)
    (s : CacheState ε σ) : Except CacheError Answer × CacheState ε σ :=
  match remainders first last cached.first cached.last with
  | [] => (.ok (cached.answer.slice first last), s)
  | parts => match c.fetch r parts s with
    | (.failed e, s) => (.error e, s)
    | (.refused, s) => c.execute query s
    | (.fragments fresh, s) =>
      let first' := if cached.first < first then cached.first else first
      let last' := if last < cached.last then cached.last else last
      match Fragment.joinAll c.settings.tolerance (cached :: fresh) with
      | [] => (.ok .empty, (c.keep r .empty first' last' s).2)
      | [a] => (.ok (a.slice first last), (c.keep r a first' last' s).2)
      | _ => c.executeAndKeep r query first last s

def query (q : Text) (s : CacheState ε σ) : Except CacheError Answer × CacheState ε σ :=
  match Request.read c.context q with
  | .error _ => c.execute q s
  | .ok r => match cacheableWindow? r with
    | none => c.execute q s
    | some (first, last) => match c.lookup r.signature first last s with
      | (none, s) => c.executeAndKeep r q first last s
      | (some (a, cachedFirst, cachedLast), s) =>
        c.complete r q first last ⟨cachedFirst, cachedLast, a.restrictTags r.groupTags⟩ s

/-- Stores an answer to a query that the caller has; one with an error is passed over. -/
def storeAnswer (q : Text) (a : Answer) (s : CacheState ε σ) :
    Except CacheError Unit × CacheState ε σ :=
  match Request.read c.context q with
  | .error e => (.error (.request e), s)
  | .ok r => match cacheableWindow? r with
    | none => (.error (.notCacheable q), s)
    | some (first, last) => match a.error with
      | some _ => (.ok (), s)
      | none => c.keep r a first last s

/-- The key under which an answer to the query is stored. -/
def storedKey? (q : Text) (s : CacheState ε σ) : Option Text :=
  match Request.read c.context q with
  | .error _ => none
  | .ok r => s.keys.get? r.signature

end Cache
end SeriesCache
