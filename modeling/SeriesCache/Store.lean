import SeriesCache.Dict
import SeriesCache.Number.Decimal
import SeriesCache.Text.Utf8
/-!
# Stores

A store keeps payloads under keys, each with the window it covers.  It is given by three
operations on its state, and any of them may fail.  The store in memory refuses keys that are too
long and loses nothing.
-/
namespace SeriesCache

/-- A payload, the window it covers and the number of its tables. -/
structure Entry where
  payload : Bytes
  first : Int64
  last : Int64
  tables : Nat
  deriving DecidableEq

/-- Whether the window of an entry has an instant in common with another one. -/
def Entry.overlaps (e : Entry) (first last : Int64) : Bool := e.first ≤ last && first ≤ e.last

inductive StoreError where
  | miss
  | keyTooLong (length limit : Nat)
  | down (reason : Text)
  deriving DecidableEq

def StoreError.message : StoreError → Text
  | miss => "cache miss".toList
  | keyTooLong n limit => "key of ".toList ++ Decimal.text n
      ++ " bytes exceeds the maximum of ".toList ++ Decimal.text limit
  | down reason => "cache store failed: ".toList ++ reason

/-- The operations of a store with states `σ`.  `get` finds the entry of a key only when its
window overlaps the one asked for. -/
structure Store (σ : Type) where
  set : Text → Entry → σ → Except StoreError Unit × σ
  get : Text → Int64 → Int64 → σ → Except StoreError Entry × σ
  delete : Text → σ → Except StoreError Unit × σ

/-- Entries in memory, and the longest key in bytes if there is a limit. -/
structure Memory where
  entries : Dict Entry
  keyLimit : Option Nat
  deriving DecidableEq

namespace Memory

def empty (keyLimit : Option Nat) : Memory := ⟨.empty, keyLimit⟩

def set (key : Text) (e : Entry) (m : Memory) : Except StoreError Unit × Memory :=
  let size := Utf8.size key
  match m.keyLimit with
  | some limit =>
    if limit < size then (.error (.keyTooLong size limit), m)
    else (.ok (), { m with entries := m.entries.insert key e })
  | none => (.ok (), { m with entries := m.entries.insert key e })

def get (key : Text) (first last : Int64) (m : Memory) : Except StoreError Entry × Memory :=
  match m.entries.get? key with
  | some e => (if e.overlaps first last then .ok e else .error .miss, m)
  | none => (.error .miss, m)

def delete (key : Text) (m : Memory) : Except StoreError Unit × Memory :=
  (.ok (), { m with entries := m.entries.erase key })

def store : Store Memory := ⟨set, get, delete⟩

end Memory
end SeriesCache
