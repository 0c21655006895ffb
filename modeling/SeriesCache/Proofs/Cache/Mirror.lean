import SeriesCache.Proofs.Cache.Steps
import SeriesCache.Proofs.Payload.Series
import SeriesCache.Proofs.Query.Signature
import SeriesCache.Proofs.Series.Slice
/-!
# Engines that answer with slices

An engine mirrors an answer on the queries of one signature when it answers each of them, and what each is
rewritten to, with the slice over its window (`Cache.Mirrors`).  `Cache.Storable` says when the cache can store such
slices.  All queries of the signature group by the same tags (`Cache.Poses.groupTags_eq`).
-/
namespace SeriesCache.Cache

variable {ε : Type} {c : Cache ε Memory}

/-- The query text is one of the signature that can be cached, over whatever window. -/
structure Poses (c : Cache ε Memory) (signature q : Text) (r : Request) (first last : Int64) : Prop where
  read : Request.read c.context q = .ok r
  window : cacheableWindow? r = some (first, last)
  signature : r.signature = signature

/-- The query text is one of the signature that can be cached, over a window that is not inverted. -/
structure Asks (c : Cache ε Memory) (signature q : Text) (r : Request) (first last : Int64) : Prop
    extends poses : Poses c signature q r first last where
  ordered : first ≤ last

/-- The engine answers the queries of a signature, and what they are rewritten to, with the slices of one
answer. -/
structure Mirrors (c : Cache ε Memory) (signature : Text) (a : Answer) : Prop where
  whole : ∀ {q r first last}, c.Asks signature q r first last → ∀ e,
    (c.engine q c.settings.database c.settings.queryPrecision e).1 = .ok (a.slice first last)
  part : ∀ {q r first last}, c.Asks signature q r first last → ∀ first last, first ≤ last → ∀ e,
    (c.engine (r.inWindow first last) c.settings.database c.settings.queryPrecision e).1 =
      .ok (a.slice first last)

/-- The answer can be stored: it is in order, its tables are named and start with the time, they have no tags
but those grouped by, and the cells of every slice fit the types that its key gives them. -/
structure Storable (c : Cache ε Memory) (signature : Text) (a : Answer) : Prop where
  orderly : a.Orderly
  name : ∀ t ∈ a.tables, t.name ≠ []
  time : ∀ t ∈ a.tables, t.columns.head? = some "time".toList
  tags : ∀ {q r first last}, c.Asks signature q r first last →
    ∀ t ∈ a.tables, ∀ k ∈ t.tags.keys, k ∈ r.groupTags
  cells : ∀ {q r first last}, c.Asks signature q r first last → ∀ first last, first ≤ last →
    (a.slice first last).Fits c.settings.textLayout r c.context.catalog

/-! ## What the queries share -/

variable {signature : Text}

theorem isCacheable_of_window {r : Request} {window : Int64 × Int64} (h : cacheableWindow? r = some window) :
    r.isCacheable = true := by
  rw [cacheableWindow?] at h
  split at h
  · assumption
  · cases h

/-- Requests with one signature group by the same tags. -/
theorem Poses.groupTags_eq {q q' : Text} {r r' : Request} {first last first' last' : Int64}
    (h : c.Poses signature q r first last) (h' : c.Poses signature q' r' first' last') :
    r.groupTags = r'.groupTags :=
  Request.groupTags_eq_of_signature h.read h'.read (isCacheable_of_window h.window) (isCacheable_of_window h'.window)
    (h.signature.trans h'.signature.symm)

end SeriesCache.Cache
