import SeriesCache.Proofs.Cache.Mirror
import SeriesCache.Proofs.Cache.Remainders
/-!
# A query and what is remembered for it

How a query is answered is decided by the entry of its signature.  Where that does not overlap the window, the
engine is asked (`Poses.query_of_apart`); where it does, it is completed (`Poses.query_of_overlaps`), and for that
nothing is needed when the window lies in that of the entry (`Asks.query_of_inside`).  In a run of queries of one
signature the entry can always be read, and its window is not inverted (`Readable.run`).
-/
namespace SeriesCache.Cache

variable {ε : Type} {c : Cache ε Memory} {signature q : Text} {r : Request} {first last : Int64}
  {s : CacheState ε Memory}

/-- The entry of a signature overlaps a window, or there is none that does. -/
theorem overlaps_or_apart (signature : Text) (first last : Int64) (s : CacheState ε Memory) :
    (∃ key e, s.view signature = some (key, some e) ∧ e.overlaps first last = true) ∨
    ∀ key e, s.view signature = some (key, some e) → e.overlaps first last = false := by
  refine Classical.or_iff_not_imp_left.2 fun h key e hview => Bool.eq_false_iff.2 fun hover => ?_
  exact h ⟨key, e, hview, hover⟩

theorem Poses.query_of_apart (hstore : c.store = Memory.store) (hr : c.Poses signature q r first last)
    (h : ∀ key e, s.view signature = some (key, some e) → e.overlaps first last = false) :
    c.query q s = c.executeAndKeep r q first last s := by
  rw [query, hr.read]
  simp only [hr.window, hr.signature]
  rcases lookup_cases hstore signature first last s with ⟨-, hlookup⟩ | ⟨key, e, hview, hover, -⟩
  · rw [hlookup]
  · rw [h key e hview] at hover
    cases hover

theorem Poses.query_of_overlaps (hstore : c.store = Memory.store) (hr : c.Poses signature q r first last) {key : Text}
    {e : Entry} {b : Answer} (hview : s.view signature = some (key, some e)) (hover : e.overlaps first last = true)
    (hdecode : Payload.decode c.settings.textLayout e.payload = .ok b) :
    c.query q s = c.complete r q first last ⟨e.first, e.last, b.restrictTags r.groupTags⟩ s := by
  rw [query, hr.read]
  simp only [hr.window, hr.signature, lookup_eq hstore, hview, hover, if_true, hdecode]

theorem overlaps_iff {e : Entry} : e.overlaps first last = true ↔ e.first ≤ last ∧ first ≤ e.last := by
  rw [Entry.overlaps, Bool.and_eq_true, decide_eq_true_eq, decide_eq_true_eq]

/-- **A window inside that of the entry** is answered from the entry, and nothing is touched. -/
theorem Asks.query_of_inside (hstore : c.store = Memory.store) (hr : c.Asks signature q r first last) {key : Text}
    {e : Entry} {b : Answer} (hview : s.view signature = some (key, some e)) (hfirst : e.first ≤ first)
    (hlast : last ≤ e.last) (hdecode : Payload.decode c.settings.textLayout e.payload = .ok b) :
    c.query q s = (.ok ((b.restrictTags r.groupTags).slice first last), s) := by
  have hover : e.overlaps first last = true :=
    overlaps_iff.2 ⟨Int64.le_trans hfirst hr.ordered, Int64.le_trans hr.ordered hlast⟩
  rw [hr.query_of_overlaps hstore hview hover hdecode, complete, remainders_eq_nil_iff.2 ⟨hfirst, hlast⟩]

/-! ## Entries that can be read -/

/-- The entry of the signature can be read, and its window is not inverted. -/
def Readable (c : Cache ε Memory) (signature : Text) (s : CacheState ε Memory) : Prop :=
  ∀ key e, s.view signature = some (key, some e) →
    e.first ≤ e.last ∧ ∃ b, Payload.decode c.settings.textLayout e.payload = .ok b

theorem Readable.keep (hstore : c.store = Memory.store) (h : c.Readable signature s) (hr : r.signature = signature)
    (a : Answer) {first' last' : Int64} (hle : first' ≤ last') :
    c.Readable signature (c.keep r a first' last' s).2 := by
  intro key e hview
  rcases view_keep_cases hstore hr hview with hview | ⟨payload, hentry, rfl⟩
  · exact h key e hview
  · exact ⟨hle, Payload.exists_decode_of_encode (encode_of_entryOf hentry)⟩

/-- **A query leaves an entry that can be read** where it found one or none. -/
theorem Readable.query (hstore : c.store = Memory.store) (h : c.Readable signature s)
    (hr : c.Asks signature q r first last) : c.Readable signature (c.query q s).2 := by
  rcases overlaps_or_apart signature first last s with ⟨key, m, hview, hover⟩ | hapart
  · obtain ⟨-, b, hdecode⟩ := h key m hview
    rw [hr.query_of_overlaps hstore hview hover hdecode]
    obtain ⟨e, he | ⟨a, window, hwindow, he⟩⟩ :=
      complete_snd (c := c) r q first last ⟨m.first, m.last, b.restrictTags r.groupTags⟩ s <;> rw [he]
    · exact h
    · refine Readable.keep (s := { s with engine := e }) hstore h hr.signature a ?_
      rcases hwindow with rfl | rfl
      · exact hr.ordered
      · obtain ⟨⟨hfirst, hlast⟩, -⟩ := inside_hull (first, last) (m.first, m.last)
        exact Int64.le_trans hfirst (Int64.le_trans hr.ordered hlast)
  · rw [hr.query_of_apart hstore hapart]
    obtain ⟨e, he | ⟨a, he⟩⟩ := executeAndKeep_snd (c := c) r q first last s <;> rw [he]
    · exact h
    · exact Readable.keep (s := { s with engine := e }) hstore h hr.signature a hr.ordered

theorem Readable.run (hstore : c.store = Memory.store) : ∀ {qs : List Text} {s : CacheState ε Memory},
    (∀ q ∈ qs, ∃ r first last, c.Asks signature q r first last) → c.Readable signature s →
    c.Readable signature (c.run (qs.map .ask) s)
  | [], _, _, h => h
  | q :: qs, _, hqs, h => by
    obtain ⟨⟨r, first, last, hr⟩, hqs⟩ := List.forall_mem_cons.1 hqs
    rw [List.map_cons, Cache.run, List.foldl_cons]
    exact Readable.run hstore hqs (h.query hstore hr)

end SeriesCache.Cache
