import SeriesCache.Proofs.Cache.Transparency
import SeriesCache.Proofs.Series.Around
/-!
# Inverted windows

A window that ends before it starts has no instant, but a query over it is cached like any other, and leaves an entry
without rows.  Where a later query surrounds that entry, the parts of its window on both sides are fetched.  These
leave out nothing, and meet if the window of the entry is inverted around a single instant; then the rows of that
instant are answered twice (`Cache.Doubles`).  That aside, queries over inverted windows do no harm
(`inverted_harmless_iff`), but it happens (`not_inverted_harmless`).
-/
namespace SeriesCache.Cache

open Signed

variable {ε : Type} {c : Cache ε Memory} {signature q : Text} {a : Answer} {r : Request} {first last : Int64}
  {s : CacheState ε Memory}

/-- The engine answers the queries of a signature, and what they are rewritten to, with the slices of one answer,
whatever the windows are. -/
structure Slices (c : Cache ε Memory) (signature : Text) (a : Answer) : Prop where
  whole : ∀ {q r first last}, c.Poses signature q r first last → ∀ e,
    (c.engine q c.settings.database c.settings.queryPrecision e).1 = .ok (a.slice first last)
  part : ∀ {q r first last}, c.Poses signature q r first last → ∀ first last e,
    (c.engine (r.inWindow first last) c.settings.database c.settings.queryPrecision e).1 =
      .ok (a.slice first last)

theorem Slices.mirrors (h : c.Slices signature a) : c.Mirrors signature a where
  whole hr e := h.whole hr.poses e
  part hr first last _ e := h.part hr.poses first last e

theorem Poses.window_eq {q : Text} {r r' : Request} {first last first' last' : Int64}
    (h : c.Poses signature q r first last) (h' : c.Poses signature q r' first' last') :
    first' = first ∧ last' = last := by
  obtain ⟨hread, hwindow, -⟩ := h
  obtain ⟨hread', hwindow', -⟩ := h'
  rw [hread] at hread'
  cases hread'
  rw [hwindow] at hwindow'
  cases hwindow'
  exact ⟨rfl, rfl⟩

/-! ## Entries over any window -/

/-- The entry of the signature reads back, for all of its requests, as the slice over its window, which may be
inverted. -/
def ReadsBack (c : Cache ε Memory) (signature : Text) (a : Answer) (s : CacheState ε Memory) : Prop :=
  ∀ key entry, s.view signature = some (key, some entry) →
    ∃ b, Payload.decode c.settings.textLayout entry.payload = .ok b ∧
      ∀ {q r first last}, c.Poses signature q r first last → b.restrictTags r.groupTags = a.slice entry.first entry.last

/-- The window of the entry of the signature, if there is one, is not inverted. -/
def Upright (signature : Text) (s : CacheState ε Memory) : Prop :=
  ∀ key entry, s.view signature = some (key, some entry) → entry.first ≤ entry.last

theorem ReadsBack.holds (h : c.ReadsBack signature a s) (hupright : Upright signature s) :
    c.Holds signature a s := by
  intro key entry hview
  obtain ⟨b, hdecode, hb⟩ := h key entry hview
  exact ⟨hupright key entry hview, b, hdecode, fun hr => hb hr.poses⟩

/-- What reads back for one request of the signature does so for all of them. -/
theorem Holds.readsBack (h : c.Holds signature a s) (hr : c.Asks signature q r first last) :
    c.ReadsBack signature a s := by
  intro key entry hview
  obtain ⟨-, b, hdecode, hb⟩ := h key entry hview
  exact ⟨b, hdecode, fun hr' => by rw [hr'.groupTags_eq hr.poses, hb hr]⟩

theorem slice_inverted (hstorable : c.Storable signature a) (hlt : last < first) : a.slice first last = .empty :=
  Answer.slice_eq_empty hstorable.orderly.error fun _ _ hwithin =>
    Int64.not_le.2 hlt (Int64.le_trans hwithin.1 hwithin.2)

/-- An answer without rows reads back. -/
theorem ReadsBack.keep_inverted (hstore : c.store = Memory.store) (hstorable : c.Storable signature a)
    (h : c.ReadsBack signature a s) (hr : r.signature = signature) (hlt : last < first) :
    c.ReadsBack signature a (c.keep r (a.slice first last) first last s).2 := by
  intro key entry hview
  rcases view_keep_cases hstore hr hview with hview | ⟨payload, hentry, rfl⟩
  · exact h key entry hview
  · have hempty := slice_inverted hstorable hlt
    have hencode := encode_of_entryOf hentry
    rw [hempty] at hencode
    cases hencode
    exact ⟨.empty, rfl, fun _ => (Payload.restrictTags_empty _).trans hempty.symm⟩

/-- A slice that is stored over a window that is not inverted reads back. -/
theorem ReadsBack.keep (hstore : c.store = Memory.store) (hstorable : c.Storable signature a)
    (h : c.ReadsBack signature a s) (hr : c.Asks signature q r first last) {first' last' : Int64} (hle : first' ≤ last') :
    c.ReadsBack signature a (c.keep r (a.slice first' last') first' last' s).2 := by
  intro key entry hview
  rcases view_keep_cases hstore hr.signature hview with hview | ⟨payload, hentry, rfl⟩
  · exact h key entry hview
  · obtain ⟨b, hdecode, hb⟩ := hstorable.reads_back hr hle hentry
    exact ⟨b, hdecode, fun hr' => by rw [hr'.groupTags_eq hr.poses, hb hr]⟩

/-! ## Steps -/

/-- An inverted window that overlaps an entry lies in its window. -/
theorem remainders_of_inverted {m : Entry} (hover : m.overlaps first last = true) (hlt : last < first) :
    remainders first last m.first m.last = [] := by
  obtain ⟨hfirst, hlast⟩ := overlaps_iff.1 hover
  exact remainders_eq_nil_iff.2
    ⟨Int64.le_trans hfirst (Int64.le_of_lt hlt), Int64.le_trans (Int64.le_of_lt hlt) hlast⟩

variable (hstore : c.store = Memory.store) (hslices : c.Slices signature a) (hstorable : c.Storable signature a)

include hstore hslices hstorable in
/-- **A query over an inverted window** leaves an entry that reads back: it finds its window in that of the entry, or
it asks the engine. -/
theorem ReadsBack.query_inverted (h : c.ReadsBack signature a s) (hr : c.Poses signature q r first last)
    (hlt : last < first) : c.ReadsBack signature a (c.query q s).2 := by
  rcases overlaps_or_apart signature first last s with ⟨key, m, hview, hover⟩ | hapart
  · obtain ⟨b, hdecode, -⟩ := h key m hview
    rw [hr.query_of_overlaps hstore hview hover hdecode, complete, remainders_of_inverted hover hlt]
    exact h
  · obtain ⟨e, he⟩ := executeAndKeep_of_ok (hslices.whole hr) hstorable.orderly.error first last s
    rw [hr.query_of_apart hstore hapart, he]
    exact ReadsBack.keep_inverted (s := { s with engine := e }) hstore hstorable h hr.signature hlt

/-- The query surrounds an instant of which the answer has a row, and the window of the entry is inverted around
it. -/
def Doubles (c : Cache ε Memory) (signature : Text) (a : Answer) (q : Text) (s : CacheState ε Memory) : Prop :=
  ∃ r first last key m n, c.Poses signature q r first last ∧ s.view signature = some (key, some m) ∧ a.Holds n ∧
    m.first.toInt = n.toInt + 1 ∧ m.last.toInt = n.toInt - 1 ∧ first ≤ m.last ∧ m.first ≤ last

theorem Doubles.window (h : c.Doubles signature a q s) (hr : c.Poses signature q r first last) :
    first ≤ last ∧ ∃ key m n, s.view signature = some (key, some m) ∧ a.Holds n ∧ m.first.toInt = n.toInt + 1 ∧
      m.last.toInt = n.toInt - 1 ∧ first ≤ m.last ∧ m.first ≤ last := by
  obtain ⟨r', first', last', key, m, n, hr', hview, hn, hfirst, hlast, hbefore, hbehind⟩ := h
  obtain ⟨rfl, rfl⟩ := hr.window_eq hr'
  refine ⟨?_, key, m, n, hview, hn, hfirst, hlast, hbefore, hbehind⟩
  rw [Int64.le_iff_toInt_le] at *
  omega

theorem remainders_around {m m' : Int64} (hbefore : first < m) (hbehind : m' < last) :
    remainders first last m m' = [(first, m - 1), (m' + 1, last)] := by
  unfold remainders
  rw [if_pos hbefore, if_pos hbehind]
  rfl

/-- The slices on both sides of a window, up to it and from its end on. -/
structure Around (a : Answer) (first last first' last' : Int64) (f g : Fragment) : Prop where
  start : f.first = first
  upTo : f.last.toInt = first'.toInt - 1
  before : f.answer = a.slice f.first f.last
  fromOn : g.first.toInt = last'.toInt + 1
  finish : g.last = last
  behind : g.answer = a.slice g.first g.last

/-- What a query comes to that surrounds an entry without rows: what is on both sides of it, joined. -/
theorem complete_around (hslices : c.Slices signature a) (hstorable : c.Storable signature a)
    (hr : c.Poses signature q r first last) (cached : Fragment) (hcached : cached.answer.isEmpty = true)
    (hbefore : first < cached.first) (hbehind : cached.last < last) (s : CacheState ε Memory) :
    ∃ e f g, Around a first last cached.first cached.last f g ∧
      c.complete r q first last cached s = match Fragment.joinAll c.settings.tolerance [f, g] with
        | [] => (.ok .empty, (c.keep r .empty first last { s with engine := e }).2)
        | [b] => (.ok (b.slice first last), (c.keep r b first last { s with engine := e }).2)
        | _ => c.executeAndKeep r q first last { s with engine := e } := by
  have hparts := remainders_around hbefore hbehind
  have hanswers : ∀ p ∈ remainders first last cached.first cached.last, (a.slice p.1 p.2).error = none ∧
      ∀ e, (c.engine (r.inWindow p.1 p.2) c.settings.database c.settings.queryPrecision e).1 = .ok (a.slice p.1 p.2) :=
    fun p _ => ⟨hstorable.orderly.error, hslices.part hr p.1 p.2⟩
  obtain ⟨e, he⟩ := fetch_of_ok hanswers s
  refine ⟨e, ⟨first, cached.first - 1, a.slice first (cached.first - 1)⟩,
    ⟨cached.last + 1, last, a.slice (cached.last + 1) last⟩,
    ⟨rfl, toInt_pred hbefore, rfl, toInt_succ hbehind, rfl, rfl⟩, ?_⟩
  rw [hparts] at he
  unfold complete
  simp only [hparts, he, if_neg (Int64.lt_asymm hbefore), if_neg (Int64.lt_asymm hbehind), List.map_cons, List.map_nil]
  exact (Fragment.joinAll_cons_of_isEmpty hcached _).symm ▸ rfl

/-- The slices around an inverted window are joined to the slice over all of it, if they do not meet in a row. -/
theorem Around.joined (tolerance : Tolerance) (horderly : a.Orderly) {first' last' : Int64} {f g : Fragment}
    (h : Around a first last first' last' f g) (hinverted : last' < first') (hfirst : first ≤ last') (hlast : first' ≤ last)
    (hmeet : ∀ n, a.Holds n → ¬ (first'.toInt = n.toInt + 1 ∧ last'.toInt = n.toInt - 1)) :
    (Fragment.joinAll tolerance [f, g] = [] → a.slice first last = .empty) ∧
      ∀ b, Fragment.joinAll tolerance [f, g] = [b] → b = a.slice first last := by
  obtain ⟨rfl, hupTo, hbefore, hfromOn, rfl, hbehind⟩ := h
  rw [Int64.le_iff_toInt_le] at hfirst hlast
  rw [Int64.lt_iff_toInt_lt] at hinverted
  apply Fragment.joinAll_around horderly hbefore hbehind
  · rw [Int64.lt_iff_toInt_lt]
    omega
  · rw [Int64.le_iff_toInt_le]
    omega
  · rw [Int64.le_iff_toInt_le]
    omega
  · omega
  · intro heq hn
    have := congrArg Int64.toInt heq
    exact hmeet f.last hn ⟨by omega, by omega⟩

/-- If they meet in a row, they are joined to more than that. -/
theorem Around.doubled {tolerance : Tolerance} (horderly : a.Orderly) (htolerance : 0 ≤ tolerance.nanos)
    {first' last' n : Int64} {f g : Fragment} (h : Around a first last first' last' f g) (hfirst : first ≤ last')
    (hlast : first' ≤ last) (hn : a.Holds n) (hstart : first'.toInt = n.toInt + 1) (hend : last'.toInt = n.toInt - 1) :
    ∃ b, Fragment.joinAll tolerance [f, g] = [b] ∧ b.slice first last ≠ a.slice first last := by
  obtain ⟨rfl, hupTo, hbefore, hfromOn, rfl, hbehind⟩ := h
  have hf : f.last = n := Int64.toInt_inj.1 (by omega)
  have hg : g.first = n := Int64.toInt_inj.1 (by omega)
  rw [hf] at hbefore
  rw [hg] at hbehind
  apply Fragment.joinAll_twice horderly htolerance hbefore hbehind hf hg ?_ ?_ hn
  · rw [Int64.le_iff_toInt_le] at hfirst
    rw [Int64.lt_iff_toInt_lt]
    omega
  · rw [Int64.le_iff_toInt_le] at hlast ⊢
    omega

include hstore hslices hstorable in
/-- A query that surrounds an inverted window is answered with the slice over its own, and leaves an entry that reads
back, when the slices around do not meet in a row. -/
theorem ReadsBack.complete_around (h : c.ReadsBack signature a s) (hr : c.Asks signature q r first last)
    {cached : Fragment} (hcached : cached.answer.isEmpty = true) (hinverted : cached.last < cached.first)
    (hfirst : first ≤ cached.last) (hlast : cached.first ≤ last)
    (hmeet : ∀ n, a.Holds n → ¬ (cached.first.toInt = n.toInt + 1 ∧ cached.last.toInt = n.toInt - 1)) :
    (c.complete r q first last cached s).1 = .ok (a.slice first last) ∧
      c.ReadsBack signature a (c.complete r q first last cached s).2 := by
  obtain ⟨e, f, g, haround, hcomplete⟩ := Cache.complete_around hslices hstorable hr.poses cached hcached
    (Int64.lt_of_le_of_lt hfirst hinverted) (Int64.lt_of_lt_of_le hinverted hlast) s
  obtain ⟨hnone, hone⟩ := haround.joined c.settings.tolerance hstorable.orderly hinverted hfirst hlast hmeet
  have hkeep := ReadsBack.keep (s := { s with engine := e }) hstore hstorable h hr hr.ordered
  rw [hcomplete]
  split
  · rename_i hjoin
    simp only
    rw [hnone hjoin] at hkeep ⊢
    exact ⟨rfl, hkeep⟩
  · rename_i b hjoin
    have hslice := Answer.slice_slice (Int64.le_refl first) (Int64.le_refl last) a
    simp only
    rw [hone b hjoin, hslice]
    exact ⟨rfl, hkeep⟩
  · obtain ⟨e', he'⟩ := executeAndKeep_of_ok (hslices.whole hr.poses) hstorable.orderly.error first last
      { s with engine := e }
    rw [he']
    exact ⟨rfl, ReadsBack.keep (s := { s with engine := e' }) hstore hstorable h hr hr.ordered⟩

include hstorable in
/-- An entry over an inverted window reads back without rows. -/
theorem ReadsBack.isEmpty (h : c.ReadsBack signature a s) (hr : c.Poses signature q r first last) {key : Text}
    {m : Entry} (hview : s.view signature = some (key, some m)) (hinverted : m.last < m.first) :
    ∃ b, Payload.decode c.settings.textLayout m.payload = .ok b ∧ (b.restrictTags r.groupTags).isEmpty = true := by
  obtain ⟨b, hdecode, hb⟩ := h key m hview
  refine ⟨b, hdecode, ?_⟩
  rw [hb hr, slice_inverted hstorable hinverted]
  rfl

include hstore hslices hstorable in
/-- **A query that doubles nothing** is answered with the slice over its window, and leaves an entry that reads
back. -/
theorem ReadsBack.query (h : c.ReadsBack signature a s) (hr : c.Asks signature q r first last)
    (hcalm : ¬ c.Doubles signature a q s) :
    (c.query q s).1 = .ok (a.slice first last) ∧ c.ReadsBack signature a (c.query q s).2 := by
  rcases overlaps_or_apart signature first last s with ⟨key, m, hview, hover⟩ | hapart
  · by_cases hle : m.first ≤ m.last
    · have hupright : Upright signature s := by
        intro key' m' hview'
        rw [hview] at hview'
        cases hview'
        exact hle
      obtain ⟨hanswer, hholds⟩ := faithful_query hstore hslices.mirrors hstorable hr (h.holds hupright)
      exact ⟨hanswer, hholds.readsBack hr⟩
    · have hinverted : m.last < m.first := Int64.not_le.1 hle
      obtain ⟨hlast, hfirst⟩ := overlaps_iff.1 hover
      obtain ⟨b, hdecode, hempty⟩ := h.isEmpty hstorable hr.poses hview hinverted
      rw [hr.query_of_overlaps hstore hview hover hdecode]
      refine h.complete_around hstore hslices hstorable hr hempty hinverted hfirst hlast fun n hn hmeet => hcalm ?_
      exact ⟨r, first, last, key, m, n, hr.poses, hview, hn, hmeet.1, hmeet.2, hfirst, hlast⟩
  · obtain ⟨e, he⟩ := executeAndKeep_of_ok (hslices.whole hr.poses) hstorable.orderly.error first last s
    rw [hr.query_of_apart hstore hapart, he]
    exact ⟨rfl, ReadsBack.keep (s := { s with engine := e }) hstore hstorable h hr hr.ordered⟩

theorem tolerance_nonneg (s : Settings) : 0 ≤ s.tolerance.nanos := by
  unfold Settings.tolerance Tolerance.ofPrecision
  cases s.mergePrecision <;> decide

include hstore hslices hstorable in
/-- **A query that doubles a row** is not answered as by the engine. -/
theorem Doubles.query (h : c.ReadsBack signature a s) (hr : c.Poses signature q r first last)
    (hdoubles : c.Doubles signature a q s) : (c.query q s).1 ≠ .ok (a.slice first last) := by
  obtain ⟨hle, key, m, n, hview, hn, hstart, hend, hfirst, hlast⟩ := hdoubles.window hr
  have hinverted : m.last < m.first := Int64.lt_iff_toInt_lt.2 (by omega)
  obtain ⟨b, hdecode, hempty⟩ := h.isEmpty hstorable hr hview hinverted
  have hover : m.overlaps first last = true := overlaps_iff.2 ⟨hlast, hfirst⟩
  obtain ⟨e, f, g, haround, hcomplete⟩ := complete_around hslices hstorable hr
    ⟨m.first, m.last, b.restrictTags r.groupTags⟩ hempty (Int64.lt_of_le_of_lt hfirst hinverted)
    (Int64.lt_of_lt_of_le hinverted hlast) s
  obtain ⟨joined, hjoin, hne⟩ := haround.doubled hstorable.orderly (tolerance_nonneg c.settings) hfirst hlast hn hstart
    hend
  rw [hr.query_of_overlaps hstore hview hover hdecode, hcomplete, hjoin]
  exact fun heq => hne (Except.ok.inj heq)

/-! ## Windows inverted around a row -/

/-- The window is inverted around an instant of which the answer has a row. -/
def Straddles (a : Answer) (first last : Int64) : Prop :=
  ∃ n, a.Holds n ∧ first.toInt = n.toInt + 1 ∧ last.toInt = n.toInt - 1

theorem Straddles.inverted (h : Straddles a first last) : last < first := by
  obtain ⟨n, -, hfirst, hlast⟩ := h
  rw [Int64.lt_iff_toInt_lt]
  omega

/-- The window of the entry of the signature, if there is one, is not inverted around a row. -/
def Firm (signature : Text) (a : Answer) (s : CacheState ε Memory) : Prop :=
  ∀ key m, s.view signature = some (key, some m) → ¬ Straddles a m.first m.last

/-- Nothing is doubled over an entry whose window is not inverted around a row. -/
theorem Firm.calm (h : Firm signature a s) (q : Text) : ¬ c.Doubles signature a q s := by
  rintro ⟨r, first, last, key, m, n, -, hview, hn, hstart, hend, -⟩
  exact h key m hview ⟨n, hn, hstart, hend⟩

include hstore in
theorem Firm.keep (h : Firm signature a s) (hr : r.signature = signature) (b : Answer)
    (hwindow : ¬ Straddles a first last) : Firm signature a (c.keep r b first last s).2 := by
  intro key m hview
  rcases view_keep_cases hstore hr hview with hview | ⟨payload, -, rfl⟩
  · exact h key m hview
  · exact hwindow

include hstore in
/-- Where the engine is asked, the window of the entry becomes that of the query. -/
theorem Firm.executeAndKeep (h : Firm signature a s) (hr : r.signature = signature) (q : Text)
    (hwindow : ¬ Straddles a first last) : Firm signature a (c.executeAndKeep r q first last s).2 := by
  obtain ⟨e, he | ⟨b, he⟩⟩ := executeAndKeep_snd (c := c) r q first last s <;> rw [he]
  · exact h
  · exact Firm.keep (s := { s with engine := e }) hstore h hr b hwindow

include hstore in
/-- **A query whose window is not inverted around a row** leaves no entry whose window is. -/
theorem Firm.query (h : Firm signature a s) (hreads : c.ReadsBack signature a s) (hr : c.Poses signature q r first last)
    (hwindow : ¬ Straddles a first last) : Firm signature a (c.query q s).2 := by
  rcases overlaps_or_apart signature first last s with ⟨key, m, hview, hover⟩ | hapart
  · obtain ⟨b, hdecode, -⟩ := hreads key m hview
    rw [hr.query_of_overlaps hstore hview hover hdecode]
    by_cases hle : first ≤ last
    · obtain ⟨e, he | ⟨b', window, hcases, he⟩⟩ :=
        complete_snd (c := c) r q first last ⟨m.first, m.last, b.restrictTags r.groupTags⟩ s <;> rw [he]
      · exact h
      · refine Firm.keep (s := { s with engine := e }) hstore h hr.signature b' fun hstraddles => ?_
        -- The hull of a window that is not inverted with another one is not inverted either.
        rcases hcases with rfl | rfl
        · exact hwindow hstraddles
        · obtain ⟨⟨hfirst, hlast⟩, -⟩ := inside_hull (first, last) (m.first, m.last)
          exact Int64.not_le.2 hstraddles.inverted (Int64.le_trans hfirst (Int64.le_trans hle hlast))
    · rw [complete, remainders_of_inverted hover (Int64.not_le.1 hle)]
      exact h
  · rw [hr.query_of_apart hstore hapart]
    exact h.executeAndKeep hstore hr.signature q hwindow

/-! ## Runs -/

/-- The query can be cached, and its window ends before it starts. -/
def isInverted (c : Cache ε Memory) (q : Text) : Bool :=
  match Request.read c.context q with
  | .ok r => (cacheableWindow? r).any fun window => window.2 < window.1
  | .error _ => false

theorem Poses.isInverted_eq (hr : c.Poses signature q r first last) : c.isInverted q = decide (last < first) := by
  rw [isInverted, hr.read]
  simp only [hr.window, Option.any_some]

/-- What the queries of a run are answered whose windows are not inverted. -/
def answers (c : Cache ε Memory) : List Text → CacheState ε Memory → List (Except CacheError Answer)
  | [], _ => []
  | q :: qs, s =>
    let (answer, s) := c.query q s
    if c.isInverted q then answers c qs s else answer :: answers c qs s

theorem answers_of_inverted (h : c.isInverted q = true) (qs : List Text) (s : CacheState ε Memory) :
    c.answers (q :: qs) s = c.answers qs (c.query q s).2 := by
  rw [answers]
  simp only [h, if_true]

theorem answers_of_upright (h : c.isInverted q = false) (qs : List Text) (s : CacheState ε Memory) :
    c.answers (q :: qs) s = (c.query q s).1 :: c.answers qs (c.query q s).2 := by
  rw [answers]
  simp only [h, Bool.false_eq_true, if_false]

/-- No query of the run doubles a row. -/
def Undoubled (c : Cache ε Memory) (signature : Text) (a : Answer) : List Text → CacheState ε Memory → Prop
  | [], _ => True
  | q :: qs, s => ¬ c.Doubles signature a q s ∧ Undoubled c signature a qs (c.query q s).2

/-- All queries of the run are ones of the signature that can be cached. -/
def PosesAll (c : Cache ε Memory) (signature : Text) (qs : List Text) : Prop :=
  ∀ q ∈ qs, ∃ r first last, c.Poses signature q r first last

include hstore hslices hstorable in
/-- **A run that doubles nothing**, and no other, is answered as the run without its queries over inverted windows. -/
theorem answers_eq_iff : ∀ {qs : List Text} {s t : CacheState ε Memory}, c.PosesAll signature qs →
    c.ReadsBack signature a s → c.Holds signature a t →
    (c.answers qs s = c.answers (qs.filter fun q => !c.isInverted q) t ↔ c.Undoubled signature a qs s)
  | [], _, _, _, _, _ => ⟨fun _ => trivial, fun _ => rfl⟩
  | q :: qs, s, t, hqs, hs, ht => by
    obtain ⟨⟨r, first, last, hr⟩, hqs⟩ := List.forall_mem_cons.1 hqs
    rw [Undoubled]
    by_cases hlt : last < first
    · have hinverted : c.isInverted q = true := hr.isInverted_eq.trans (decide_eq_true hlt)
      have hcalm : ¬ c.Doubles signature a q s := fun h => Int64.not_le.2 hlt (h.window hr).1
      rw [List.filter_cons_of_neg (by simp [hinverted]), answers_of_inverted hinverted]
      simp only [hcalm, not_false_eq_true, true_and]
      exact answers_eq_iff hqs (hs.query_inverted hstore hslices hstorable hr hlt) ht
    · have hupright : c.isInverted q = false := hr.isInverted_eq.trans (decide_eq_false hlt)
      have hasks : c.Asks signature _ _ _ _ := ⟨hr, Int64.not_lt.1 hlt⟩
      obtain ⟨hanswer, hafter⟩ := faithful_query hstore hslices.mirrors hstorable hasks ht
      rw [List.filter_cons_of_pos (by simp [hupright]), answers_of_upright hupright, answers_of_upright hupright,
        List.cons.injEq, hanswer]
      by_cases hdoubles : c.Doubles signature a q s
      · simp [hdoubles, hdoubles.query hstore hslices hstorable hs hr]
      · obtain ⟨hsame, hs'⟩ := hs.query hstore hslices hstorable hasks hdoubles
        simp only [hsame, hdoubles, not_false_eq_true, true_and]
        exact answers_eq_iff hqs hs' hafter

include hstore hslices hstorable in
/-- A run doubles nothing when none of its windows is inverted around a row. -/
theorem Firm.undoubled : ∀ {qs : List Text} {s : CacheState ε Memory},
    (∀ q ∈ qs, ∃ r first last, c.Poses signature q r first last ∧ ¬ Straddles a first last) →
    c.ReadsBack signature a s → Firm signature a s → c.Undoubled signature a qs s
  | [], _, _, _, _ => trivial
  | q :: qs, s, hqs, hs, hfirm => by
    obtain ⟨⟨r, first, last, hr, hwindow⟩, hqs⟩ := List.forall_mem_cons.1 hqs
    have hcalm := hfirm.calm (c := c) q
    refine ⟨hcalm, Firm.undoubled hqs ?_ (hfirm.query hstore hs hr hwindow)⟩
    by_cases hlt : last < first
    · exact hs.query_inverted hstore hslices hstorable hr hlt
    · exact (hs.query hstore hslices hstorable ⟨hr, Int64.not_lt.1 hlt⟩ hcalm).2

/-- **When queries over inverted windows do no harm.**  Let the engine answer the queries of one signature with slices
of an answer that can be stored.  From an empty cache on, the queries of a run whose windows are not inverted are
answered as if there were no others exactly if no query surrounds an entry over a window that is inverted around a
single instant, of which the answer has a row.  So it is whenever no query of the run has such a window. -/
theorem inverted_harmless_iff (hstore : c.store = Memory.store) (hslices : c.Slices signature a)
    (hstorable : c.Storable signature a) {qs : List Text} (hqs : c.PosesAll signature qs) (e : ε)
    (keyLimit : Option Nat) :
    (c.answers qs (start e keyLimit) = c.answers (qs.filter fun q => !c.isInverted q) (start e keyLimit) ↔
      c.Undoubled signature a qs (start e keyLimit)) ∧
    ((∀ q ∈ qs, ∀ r first last, c.Poses signature q r first last → ¬ Straddles a first last) →
      c.Undoubled signature a qs (start e keyLimit)) := by
  have hreads : c.ReadsBack signature a (start e keyLimit) := fun _ _ hview => by cases hview
  have hholds : c.Holds signature a (start e keyLimit) := fun _ _ hview => by cases hview
  have hfirm : Firm signature a (start e keyLimit : CacheState ε Memory) := fun _ _ hview => by cases hview
  refine ⟨answers_eq_iff hstore hslices hstorable hqs hreads hholds, fun h => ?_⟩
  refine Firm.undoubled hstore hslices hstorable (fun q hq => ?_) hreads hfirm
  obtain ⟨r, first, last, hr⟩ := hqs q hq
  exact ⟨r, first, last, hr, h q hq r first last hr⟩

namespace Straddled

open Hosts

theorem slices (a : Answer) : (cache a).Slices Hosts.signature a where
  whole h e := slicing_of_poses h _ _ e
  part h first' last' e := by
    rw [inWindow_eq h]
    exact slicing_of_poses (poses_query a first' last') _ _ e

theorem posesAll (windows : List (Int64 × Int64)) :
    (cache answer).PosesAll Hosts.signature (windows.map fun w => Hosts.query w.1 w.2) := by
  intro q hq
  obtain ⟨w, -, rfl⟩ := List.mem_map.1 hq
  exact ⟨_, _, _, poses_query answer w.1 w.2⟩

/-- What is found after a query over the window that is inverted around 20. -/
def state : CacheState Unit Memory := ((cache answer).query (Hosts.query 21 19) (start () none)).2

theorem view_state : ∃ key, state.view Hosts.signature = some (key, some ⟨Payload.emptyAnswer, 21, 19, 0⟩) := by
  have hview : (state.view Hosts.signature).map Prod.snd = some (some ⟨Payload.emptyAnswer, 21, 19, 0⟩) := by
    decide +kernel
  obtain ⟨⟨key, entry⟩, hkey, rfl⟩ := Option.map_eq_some_iff.1 hview
  exact ⟨key, hkey⟩

/-- The values of two hosts, of which those at 20 stand twice. -/
def doubled : Answer where
  tables := [
    ⟨"m".toList, Dict.empty.insert "host".toList "a".toList, ["time".toList, "v".toList],
      [[.int64 10, .int64 1], [.int64 20, .int64 2], [.int64 20, .int64 2]]⟩,
    ⟨"m".toList, Dict.empty.insert "host".toList "b".toList, ["time".toList, "v".toList],
      [[.int64 20, .int64 3], [.int64 20, .int64 3], [.int64 30, .int64 4]]⟩]
  error := none

theorem query_state : ((cache answer).query (Hosts.query 5 40) state).1 = .ok doubled := by
  obtain ⟨key, hview⟩ := view_state
  have hr := poses_query answer 5 40
  have hdecode : Payload.decode (cache answer).settings.textLayout Payload.emptyAnswer = .ok .empty := rfl
  have hempty : (Answer.empty.restrictTags (request 5 40).groupTags).isEmpty = true := by
    rw [Payload.restrictTags_empty]
    rfl
  obtain ⟨e, f, g, haround, hcomplete⟩ := complete_around (slices answer) storable_answer hr
    ⟨21, 19, Answer.empty.restrictTags (request 5 40).groupTags⟩ hempty (by decide) (by decide) state
  obtain ⟨hstart, hupTo, hf, hfromOn, hfinish, hg⟩ := haround
  have hf20 : f.last = 20 := Int64.toInt_inj.1 hupTo
  have hg20 : g.first = 20 := Int64.toInt_inj.1 hfromOn
  rw [hstart, hf20] at hf
  rw [hfinish, hg20] at hg
  have hjoin : f.answer.join g.answer = .ok doubled := by
    rw [hf, hg]
    exact Outcome.eq_ok_of_toOption (by decide +kernel)
  have hone : Fragment.joinAll (cache answer).settings.tolerance [f, g] = [doubled] := by
    rw [Fragment.joinAll_pair_of_join (by rw [hf]; decide +kernel) (by rw [hg]; decide +kernel)
      (by rw [hstart, hg20]; decide) (by rw [hstart, hfinish]; decide) hjoin, hf20, hg20]
    exact if_pos (by decide +kernel)
  have hslice : doubled.slice 5 40 = doubled := by decide +kernel
  rw [hr.query_of_overlaps rfl hview (by decide) hdecode, hcomplete, hone]
  exact congrArg Except.ok hslice

end Straddled

open Straddled in
/-- The first window is inverted around 15, where there is no row, and the second query is answered as alone. -/
theorem inverted_harmless_iff_hosts :
    let c := Hosts.cache Hosts.answer
    let qs := [(16, 14), (5, 40)].map fun w : Int64 × Int64 => Hosts.query w.1 w.2
    c.answers qs (start () none) = c.answers (qs.filter fun q => !c.isInverted q) (start () none) := by
  intro c qs
  obtain ⟨hiff, hfirm⟩ := inverted_harmless_iff rfl (slices Hosts.answer) Hosts.storable_answer
    (posesAll [(16, 14), (5, 40)]) () none
  refine hiff.2 (hfirm fun q hq r first last hr => ?_)
  intro hstraddles
  have hinverted := hstraddles.inverted
  obtain ⟨n, hn, hfirst, hlast⟩ := hstraddles
  rcases List.mem_pair.1 hq with rfl | rfl
  · obtain ⟨rfl, rfl⟩ := (Hosts.poses_query Hosts.answer 16 14).window_eq hr
    have hmiddle : n = 15 := by
      have hlow : (14 : Int64).toInt = 14 := rfl
      have hsame : (15 : Int64).toInt = 15 := rfl
      exact Int64.toInt_inj.1 (by omega)
    subst hmiddle
    exact hn.slice (Int64.le_refl 15) (Int64.le_refl 15) (by decide +kernel)
  · obtain ⟨rfl, rfl⟩ := (Hosts.poses_query Hosts.answer 5 40).window_eq hr
    exact absurd hinverted (by decide)

open Straddled in
/-- **A query over an empty window may do harm.**  After one over the window that is inverted around 20, the rows
at 20 are answered twice. -/
theorem not_inverted_harmless :
    let c := Hosts.cache Hosts.answer
    let qs := [Hosts.query 21 19, Hosts.query 5 40]
    let rest := qs.filter fun q => !c.isInverted q
    c.answers qs (start () none) ≠ c.answers rest (start () none) ∧
      c.answers qs (start () none) = [.ok doubled] ∧ c.answers rest (start () none) = [.ok Hosts.answer] := by
  intro c qs rest
  have hinverted : c.isInverted (Hosts.query 21 19) = true := (Hosts.poses_query Hosts.answer 21 19).isInverted_eq
  have hupright : c.isInverted (Hosts.query 5 40) = false := (Hosts.poses_query Hosts.answer 5 40).isInverted_eq
  have hrest : rest = [Hosts.query 5 40] := by simp [rest, qs, hinverted, hupright]
  have hrun : c.answers qs (start () none) = [.ok doubled] := by
    rw [answers_of_inverted hinverted, answers_of_upright hupright]
    exact congrArg (· :: []) query_state
  have halone : c.answers rest (start () none) = [.ok Hosts.answer] := by
    have hasks := Hosts.asks_query Hosts.answer (show (5 : Int64) ≤ 40 by decide)
    have hholds : c.Holds Hosts.signature Hosts.answer (start () none) := fun _ _ hview => by cases hview
    have hanswer := (faithful_query rfl (Hosts.mirrors Hosts.answer) Hosts.storable_answer hasks hholds).1
    have hslice : Hosts.answer.slice 5 40 = Hosts.answer := by decide +kernel
    rw [hrest, answers_of_upright hupright, hanswer, hslice]
    rfl
  refine ⟨fun heq => ?_, hrun, halone⟩
  rw [heq, halone] at hrun
  have hne : Hosts.answer ≠ doubled := by decide +kernel
  exact hne (Except.ok.inj (List.cons.inj hrun).1)

end SeriesCache.Cache
