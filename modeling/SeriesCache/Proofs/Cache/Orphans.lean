import Mathlib.Data.List.Perm.Subperm
import SeriesCache.Proofs.Cache.Effects
/-!
# No entry is orphaned

From an empty cache on, every key in the store is remembered for some signature (`Cache.Claimed`), so there are no
more entries than signatures (`no_orphans`).  Signatures may come to share a key, and then one of them may delete
the entry of the others; the other way round, an entry loses the last signature that leads to it only when it goes
itself.
-/
namespace SeriesCache

variable {ε : Type}

namespace Cache

variable {c : Cache ε Memory} {s : CacheState ε Memory}

/-- Every key in the store is remembered for a signature. -/
def Claimed (s : CacheState ε Memory) : Prop :=
  ∀ key entry, s.store.entries.get? key = some entry → ∃ signature, s.keys.get? signature = some key

theorem Claimed.iff_subset : Claimed s ↔ s.store.entries.keys ⊆ s.keys.values := by
  unfold Claimed
  simp [List.subset_def, Dict.mem_keys_iff, Dict.mem_values_iff]

/-- Where every key is claimed, there are no more entries than signatures. -/
theorem Claimed.size_le (h : Claimed s) : s.store.entries.size ≤ s.keys.size := by
  have hsubset := List.subperm_of_subset s.store.entries.nodup_keys (Claimed.iff_subset.1 h)
  rw [← Dict.length_keys, ← Dict.length_values]
  exact hsubset.length_le

/-! ## Steps -/

/-- **An entry that goes together with its key** leaves the others claimed: a signature that leads to another key is
another signature. -/
theorem Claimed.without (h : Claimed s) {signature key : Text} (hkey : s.keys.get? signature = some key) :
    Claimed (s.without signature key) := by
  intro k entry hentry
  unfold CacheState.without at hentry ⊢
  simp only [Dict.get?_erase] at hentry ⊢
  split at hentry
  · cases hentry
  · rename_i hne
    obtain ⟨other, hother⟩ := h k entry hentry
    refine ⟨other, ?_⟩
    have hsignature : signature ≠ other := by
      rintro rfl
      rw [hkey] at hother
      exact hne (Option.some.inj hother)
    rw [if_neg hsignature]
    exact hother

/-- **Storing leaves every key claimed**, whether it succeeds or not: the key before goes with its entry, and a key
that other signatures lead to is still theirs. -/
theorem Claimed.keep (hstore : c.store = Memory.store) (h : Claimed s) (r : Request) (a : Answer)
    (first last : Int64) : Claimed (c.keep r a first last s).2 := by
  rcases keep_cases hstore r a first last s with ⟨-, error, hkeep⟩ | ⟨key, payload, -, -, hkeep⟩
  · rw [hkeep]
    exact h
  · rw [hkeep]
    intro k entry hentry
    simp only [keys_remember hstore, get?_remember hstore, Dict.get?_insert] at hentry ⊢
    by_cases hk : key = k
    · exact ⟨r.signature, by rw [if_pos rfl, hk]⟩
    · split at hentry
      · cases hentry
      · rename_i hold
        obtain ⟨other, hother⟩ := h k entry hentry
        have hsignature : r.signature ≠ other := by
          rintro rfl
          exact hold ⟨hother, Ne.symm hk⟩
        exact ⟨other, by rw [if_neg hsignature, hother]⟩

theorem Claimed.query (hstore : c.store = Memory.store) (h : Claimed s) (q : Text) : Claimed (c.query q s).2 := by
  obtain ⟨t, ht, e, hquery⟩ := query_snd hstore q s
  have hclaimed : Claimed t := by
    rcases ht with rfl | ⟨signature, key, hspoiled, rfl⟩
    · exact h
    · obtain ⟨-, -, -, hview, -, -⟩ := hspoiled
      exact h.without (CacheState.view_eq_some_iff.1 hview).1
  rcases hquery with hquery | ⟨r, a, first, last, hquery⟩ <;> rw [hquery]
  · exact hclaimed
  · exact Claimed.keep (s := { t with engine := e }) hstore hclaimed r a first last

theorem Claimed.after (hstore : c.store = Memory.store) (h : Claimed s) : ∀ call, Claimed (c.after s call)
  | .ask q => h.query hstore q
  | .give q b => by
    rw [Cache.after]
    rcases c.storeAnswer_cases q b s with ⟨outcome, hcall⟩ | ⟨-, r, first, last, hcall⟩ <;> rw [hcall]
    · exact h
    · exact h.keep hstore r b first last

/-! ## Runs -/

theorem Claimed.run (hstore : c.store = Memory.store) : ∀ (calls : List Call) {s : CacheState ε Memory},
    Claimed s → Claimed (c.run calls s)
  | [], _, h => h
  | call :: calls, _, h => by
    rw [Cache.run, List.foldl_cons]
    exact Claimed.run hstore calls (h.after hstore call)

/-- **No entry is orphaned.**  After any calls of an empty cache over an empty store, whatever its limit on keys and
whatever the engine answers, every key in the store is the one that is remembered for some signature; so the store
never has more entries than there are signatures with a key. -/
theorem no_orphans (engine : Engine ε) (context : Context) (settings : Settings) (calls : List Call) (e : ε)
    (keyLimit : Option Nat) :
    let c : Cache ε Memory := ⟨engine, Memory.store, context, settings⟩
    let s := c.run calls (start e keyLimit)
    (∀ key ∈ s.store.entries.keys, ∃ signature, s.keys.get? signature = some key) ∧
      s.store.entries.size ≤ s.keys.size := by
  intro c s
  have hstart : Claimed (start e keyLimit) := fun _ _ hentry => by cases hentry
  have hclaimed : Claimed s := hstart.run (c := c) rfl calls
  refine ⟨fun key hkey => ?_, hclaimed.size_le⟩
  obtain ⟨entry, hentry⟩ := Dict.mem_keys_iff.1 hkey
  exact hclaimed key entry hentry

end Cache
end SeriesCache
