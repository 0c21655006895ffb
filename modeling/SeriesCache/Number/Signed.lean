import SeriesCache.Number.Decimal
/-!
# Integers of 64 bits

Instants and durations are counted in nanoseconds in 64 bits, signed.  A sum that does not
fit has no value (`add?`, `sub?`), and the neighbours of an instant stop at the ends of the
range (`next`, `prev`).
-/
namespace SeriesCache.Signed

/-- The 64-bit integer equal to `n`, if there is one. -/
def ofInt? (n : Int) : Option Int64 :=
  if -0x8000000000000000 ≤ n ∧ n < 0x8000000000000000 then some (Int64.ofInt n) else none

/-- The 64-bit integer nearest to `n`. -/
def clamp (n : Int) : Int64 :=
  if n < -0x8000000000000000 then Int64.minValue
  else if 0x8000000000000000 ≤ n then Int64.maxValue
  else Int64.ofInt n

def add? (a b : Int64) : Option Int64 := ofInt? (a.toInt + b.toInt)

def sub? (a b : Int64) : Option Int64 := ofInt? (a.toInt - b.toInt)

def next (a : Int64) : Int64 := clamp (a.toInt + 1)

def prev (a : Int64) : Int64 := clamp (a.toInt - 1)

def text (a : Int64) : Text := Decimal.intText a.toInt

/-- The 64-bit integer that a text of digits, with an optional sign, stands for. -/
def read? (s : Text) : Option Int64 := (Decimal.int? s).bind ofInt?

/-- The natural number below 2^64 that a text of digits stands for. -/
def unsigned? (s : Text) : Option UInt64 :=
  (Decimal.nat? s).bind fun n => if n < 0x10000000000000000 then some n.toUInt64 else none

/-! ## Laws -/

theorem toInt_of_ofInt? {n : Int} {a : Int64} (h : ofInt? n = some a) : a.toInt = n := by
  unfold ofInt? at h
  split at h
  · cases h
    exact Int64.toInt_ofInt_of_le (by omega) (by omega)
  · cases h

@[simp] theorem ofInt?_toInt (a : Int64) : ofInt? a.toInt = some a := by
  have low := a.le_toInt
  have high := a.toInt_lt
  rw [ofInt?, if_pos ⟨by omega, by omega⟩, Int64.ofInt_toInt]

theorem ofInt?_eq_some_iff {n : Int} {a : Int64} : ofInt? n = some a ↔ a.toInt = n := by
  constructor
  · exact toInt_of_ofInt?
  · rintro rfl
    exact ofInt?_toInt a

theorem exists_toInt_eq {n : Int} (hlow : -0x8000000000000000 ≤ n) (hhigh : n < 0x8000000000000000) :
    ∃ a : Int64, a.toInt = n :=
  ⟨Int64.ofInt n, Int64.toInt_ofInt_of_le (by omega) (by omega)⟩

theorem toInt_clamp (n : Int) :
    (clamp n).toInt =
      if n < -0x8000000000000000 then -0x8000000000000000
      else if 0x8000000000000000 ≤ n then 0x7FFFFFFFFFFFFFFF
      else n := by
  unfold clamp
  split
  · rfl
  · split
    · rfl
    · exact Int64.toInt_ofInt_of_le (by omega) (by omega)

end SeriesCache.Signed
