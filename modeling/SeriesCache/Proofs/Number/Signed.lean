import SeriesCache.Number.Signed
/-!
# Neighbours of an instant

Subtraction and addition of one wrap at the ends of 64 bits, and are exact where some instant stands on the other
side (`toInt_pred`, `toInt_succ`).  The neighbours `next` and `prev` stop there, so that what is strictly on one side
of an instant is on that side of its neighbour as well, and all of it unless the instant is an end of the range
(`next_le_iff`, `le_prev_iff`).
-/
namespace SeriesCache.Signed

theorem toInt_pred {m n : Int64} (h : m < n) : (n - 1).toInt = n.toInt - 1 := by
  have hm := m.le_toInt
  have hn := n.toInt_lt
  rw [Int64.lt_iff_toInt_lt] at h
  rw [Int64.toInt_sub, Int64.toInt_one]
  exact Int.bmod_eq_of_le (by omega) (by omega)

theorem toInt_succ {m n : Int64} (h : m < n) : (m + 1).toInt = m.toInt + 1 := by
  have hm := m.le_toInt
  have hn := n.toInt_lt
  rw [Int64.lt_iff_toInt_lt] at h
  rw [Int64.toInt_add, Int64.toInt_one]
  exact Int.bmod_eq_of_le (by omega) (by omega)

theorem toInt_next (a : Int64) : (next a).toInt = min (a.toInt + 1) 0x7FFFFFFFFFFFFFFF := by
  have hlow := a.le_toInt
  have hhigh := a.toInt_lt
  rw [next, toInt_clamp]
  split
  · omega
  · split <;> omega

theorem toInt_prev (a : Int64) : (prev a).toInt = max (a.toInt - 1) (-0x8000000000000000) := by
  have hlow := a.le_toInt
  have hhigh := a.toInt_lt
  rw [prev, toInt_clamp]
  split
  · omega
  · split <;> omega

theorem next_le_of_lt {a b : Int64} (h : a < b) : next a ≤ b := by
  rw [Int64.lt_iff_toInt_lt] at h
  rw [Int64.le_iff_toInt_le, toInt_next]
  omega

theorem le_prev_of_lt {a b : Int64} (h : a < b) : a ≤ prev b := by
  rw [Int64.lt_iff_toInt_lt] at h
  rw [Int64.le_iff_toInt_le, toInt_prev]
  omega

theorem next_le_iff {a b : Int64} (ha : a < Int64.maxValue) : next a ≤ b ↔ a < b := by
  rw [Int64.lt_iff_toInt_lt, Int64.toInt_maxValue] at ha
  rw [Int64.le_iff_toInt_le, Int64.lt_iff_toInt_lt, toInt_next]
  omega

theorem le_prev_iff {a b : Int64} (hb : Int64.minValue < b) : a ≤ prev b ↔ a < b := by
  rw [Int64.lt_iff_toInt_lt, Int64.toInt_minValue] at hb
  rw [Int64.le_iff_toInt_le, Int64.lt_iff_toInt_lt, toInt_prev]
  omega

end SeriesCache.Signed
