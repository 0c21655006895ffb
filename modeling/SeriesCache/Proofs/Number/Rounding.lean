import Mathlib.Algebra.Order.Field.Power
import Mathlib.Algebra.Order.Field.Rat
import Mathlib.Tactic.FieldSimp
import Mathlib.Tactic.Linarith
import Mathlib.Tactic.Positivity
import Mathlib.Tactic.Qify
import Mathlib.Tactic.Ring
import SeriesCache.Number.Shortest
/-!
# What is rounded to a number

Every quotient in the interval of the decimals read as a number is rounded to that number (`nearestRatio_eq`).  The
scale of a quotient is the one exponent that leaves it the bits of a significand (`scaleOf_eq`); the scale of a
quotient in the interval is the number's own, except just below a power of two, where it is one less and the
significand is rounded up to the next power.
-/
namespace SeriesCache

/-! ## Powers with integer exponents -/

theorem zpow_eq_toNat (c : ℚ) (k : ℤ) : c ^ k = c ^ k.toNat / c ^ (-k).toNat := by
  rcases Int.le_total 0 k with hk | hk
  · obtain ⟨n, rfl⟩ := Int.eq_ofNat_of_zero_le hk
    simp
  · obtain ⟨n, hn⟩ := Int.eq_ofNat_of_zero_le (Int.neg_nonneg_of_nonpos hk)
    obtain rfl : k = -(n : ℤ) := by omega
    simp

theorem log2_bounds {n : Nat} (hn : 0 < n) : (2 : ℚ) ^ (n.log2 : ℤ) ≤ n ∧ (n : ℚ) < 2 ^ ((n.log2 : ℤ) + 1) := by
  have hlow := Nat.log2_self_le hn.ne'
  have hhigh := Nat.lt_log2_self (n := n)
  refine ⟨?_, ?_⟩
  · rw [zpow_natCast]
    exact_mod_cast hlow
  · rw [show (n.log2 : ℤ) + 1 = ((n.log2 + 1 : ℕ) : ℤ) by simp, zpow_natCast]
    exact_mod_cast hhigh

theorem le_ten_zpow {k : ℤ} (hk : 0 ≤ k) : (2 : ℚ) ^ (3 * k) ≤ 10 ^ k := by
  obtain ⟨j, rfl⟩ := Int.eq_ofNat_of_zero_le hk
  rw [zpow_mul, zpow_natCast, zpow_natCast]
  gcongr
  norm_num

theorem ten_zpow_le {k : ℤ} (hk : k ≤ 0) : (10 : ℚ) ^ k ≤ 2 ^ (3 * k) := by
  have h := le_ten_zpow (k := -k) (by omega)
  rw [mul_neg, zpow_neg, zpow_neg] at h
  exact (inv_le_inv₀ (by positivity) (by positivity)).1 h

/-- The value of a decimal numeral. -/
def Numeral.value (n : Numeral) : ℚ := n.digits * 10 ^ n.exponent

namespace Binary64

theorem cast_twoTo (n : Nat) : (twoTo n : ℚ) = 2 ^ n := by simp [twoTo]

/-- Scaled parts of a quotient are the parts of the scaled quotient. -/
theorem scaled_quotient (num den : Nat) (k : ℤ) :
    ((num * twoTo (-k).toNat : ℕ) : ℚ) / ((den * twoTo k.toNat : ℕ) : ℚ) = num / den / 2 ^ k := by
  rw [Nat.cast_mul, Nat.cast_mul, cast_twoTo, cast_twoTo, zpow_eq_toNat 2 k, div_div_eq_mul_div, mul_div_mul_comm,
    mul_div_assoc]

/-! ## Parts of a finite number -/

section

variable {x : Binary64}

theorem magnitude_lt (h : x.isFinite = true) : x.magnitude < infinity := by simpa [isFinite] using h

theorem significand_lt (x : Binary64) : x.significand < 2 * hiddenBit := by
  unfold significand hiddenBit
  split <;> omega

theorem exponent_bounds (h : x.isFinite = true) : -1074 ≤ x.exponent ∧ x.exponent ≤ 971 := by
  have hfinite := magnitude_lt h
  unfold exponent hiddenBit
  unfold infinity at hfinite
  omega

/-- The magnitude counts the numbers below, as many for each exponent as there are significands. -/
theorem magnitude_eq (x : Binary64) : (x.magnitude : ℤ) = x.significand + (x.exponent + 1074) * hiddenBit := by
  unfold significand exponent hiddenBit
  split <;> omega

theorem hiddenBit_le (x : Binary64) : hiddenBit ≤ x.significand ∨ x.exponent = -1074 := by
  unfold significand exponent hiddenBit
  split <;> omega

theorem significand_pos (h : x.isZero = false) : 0 < x.significand := by
  have hne : x.magnitude ≠ 0 := by simpa [isZero] using h
  unfold significand hiddenBit
  split <;> omega

end

/-! ## The interval around a number -/

/-- The value lies in the interval of the decimals that are read as the number. -/
structure Covers (x : Binary64) (v : ℚ) : Prop where
  low : (x.readingEnds.1 : ℚ) ≤ v / 2 ^ (x.exponent - 2)
  high : v / 2 ^ (x.exponent - 2) ≤ x.readingEnds.2
  odd : x.significand % 2 = 1 → (x.readingEnds.1 : ℚ) < v / 2 ^ (x.exponent - 2) ∧
    v / 2 ^ (x.exponent - 2) < x.readingEnds.2

theorem isReadAs_iff {x : Binary64} {n : Numeral} : x.isReadAs n = true ↔ x.Covers n.value := by
  have hpoint : ((n.digits * Decimal.tenTo n.exponent.toNat * twoTo (-(x.exponent - 2)).toNat : ℕ) : ℚ) =
      n.value / 2 ^ (x.exponent - 2) * (2 ^ (x.exponent - 2).toNat * 10 ^ (-n.exponent).toNat) := by
    have htwo : (0 : ℚ) < 2 ^ (x.exponent - 2).toNat := by positivity
    have hten : (0 : ℚ) < 10 ^ (-n.exponent).toNat := by positivity
    rw [Numeral.value, zpow_eq_toNat 10, zpow_eq_toNat 2 (x.exponent - 2)]
    simp only [Nat.cast_mul, cast_twoTo, Decimal.tenTo, Nat.pow_eq, Nat.cast_pow, Nat.cast_ofNat]
    field_simp
  have hscaled (bound : Nat) : ((bound * twoTo (x.exponent - 2).toNat * Decimal.tenTo (-n.exponent).toNat : ℕ) : ℚ) =
      bound * (2 ^ (x.exponent - 2).toNat * 10 ^ (-n.exponent).toNat) := by
    simp only [Nat.cast_mul, cast_twoTo, Decimal.tenTo, Nat.pow_eq, Nat.cast_pow, Nat.cast_ofNat, mul_assoc]
  have hpos : (0 : ℚ) < 2 ^ (x.exponent - 2).toNat * 10 ^ (-n.exponent).toNat := by positivity
  have hle (bound : Nat) : bound * twoTo (x.exponent - 2).toNat * Decimal.tenTo (-n.exponent).toNat ≤
      n.digits * Decimal.tenTo n.exponent.toNat * twoTo (-(x.exponent - 2)).toNat ↔
        (bound : ℚ) ≤ n.value / 2 ^ (x.exponent - 2) := by
    rw [← @Nat.cast_le ℚ, hpoint, hscaled, mul_le_mul_iff_of_pos_right hpos]
  have hge (bound : Nat) : n.digits * Decimal.tenTo n.exponent.toNat * twoTo (-(x.exponent - 2)).toNat ≤
      bound * twoTo (x.exponent - 2).toNat * Decimal.tenTo (-n.exponent).toNat ↔
        n.value / 2 ^ (x.exponent - 2) ≤ (bound : ℚ) := by
    rw [← @Nat.cast_le ℚ, hpoint, hscaled, mul_le_mul_iff_of_pos_right hpos]
  unfold isReadAs
  simp only
  split
  · rename_i heven
    simp only [Bool.and_eq_true, decide_eq_true_eq, hle, hge]
    exact ⟨fun h => ⟨h.1, h.2, fun hodd => by omega⟩, fun h => ⟨h.low, h.high⟩⟩
  · simp only [Bool.and_eq_true, decide_eq_true_eq, ← not_le, hle, hge]
    simp only [not_le]
    exact ⟨fun h => ⟨h.1.le, h.2.le, fun _ => h⟩, fun h => h.odd (by omega)⟩

/-! ## Rounding -/

theorem roundQuotient_eq {num den q : Nat} (hlow : 2 * (q * den) ≤ 2 * num + den) (hhigh : 2 * num ≤ 2 * (q * den) + den)
    (hodd : q % 2 = 1 → 2 * (q * den) < 2 * num + den ∧ 2 * num < 2 * (q * den) + den) (hden : 0 < den) :
    roundQuotient num den = q := by
  have hsplit := Nat.div_add_mod num den
  have hrest := Nat.mod_lt num hden
  generalize hp : num / den = p at hsplit
  rw [Nat.mul_comm] at hsplit
  have hle : p ≤ q := by
    by_contra hlt
    have := Nat.mul_le_mul_right den (show q + 1 ≤ p by omega)
    rw [Nat.succ_mul] at this
    omega
  have hge : q ≤ p + 1 := by
    by_contra hlt
    have := Nat.mul_le_mul_right den (show p + 1 + 1 ≤ q by omega)
    rw [Nat.succ_mul, Nat.succ_mul] at this
    omega
  unfold roundQuotient
  simp only [hp]
  rcases Nat.lt_or_ge p q with hlt | hge
  · obtain rfl : q = p + 1 := by omega
    rw [Nat.succ_mul p den] at hlow hhigh hodd
    rw [if_pos (by omega)]
  · obtain rfl : q = p := by omega
    rw [if_neg (by omega)]

/-- The exponent that leaves the value the bits of a significand. -/
structure IsScale (v : ℚ) (k : ℤ) : Prop where
  least : -1074 ≤ k
  high : v < 2 ^ (k + 53)
  low : k = -1074 ∨ 2 ^ (k + 52) ≤ v

theorem IsScale.le {v : ℚ} {k l : ℤ} (hk : IsScale v k) (hl : IsScale v l) : k ≤ l := by
  rcases hk.low with rfl | hlow
  · exact hl.least
  · have hlt := (zpow_lt_zpow_iff_right₀ one_lt_two).1 (hlow.trans_lt hl.high)
    omega

theorem isScale_scaleOf {num den : Nat} (hnum : 0 < num) (hden : 0 < den) : IsScale (num / den) (scaleOf num den) := by
  obtain ⟨hnumlow, hnumhigh⟩ := log2_bounds hnum
  obtain ⟨hdenlow, hdenhigh⟩ := log2_bounds hden
  have hden' : (0 : ℚ) < den := by exact_mod_cast hden
  have htwo : (2 : ℚ) ≠ 0 := two_ne_zero
  unfold scaleOf
  simp only
  generalize hk : (num.log2 : ℤ) - den.log2 - 53 = k
  have hlow : (2 : ℚ) ^ (k + 52) ≤ num / den := by
    rw [le_div_iff₀ hden']
    calc (2 : ℚ) ^ (k + 52) * den ≤ 2 ^ (k + 52) * 2 ^ ((den.log2 : ℤ) + 1) := by gcongr
      _ = 2 ^ (num.log2 : ℤ) := by rw [← zpow_add₀ htwo]; congr 1; omega
      _ ≤ num := hnumlow
  have hhigh : (num / den : ℚ) < 2 ^ (k + 54) := by
    rw [div_lt_iff₀ hden']
    calc (num : ℚ) < 2 ^ ((num.log2 : ℤ) + 1) := hnumhigh
      _ = 2 ^ (k + 54) * 2 ^ (den.log2 : ℤ) := by rw [← zpow_add₀ htwo]; congr 1; omega
      _ ≤ 2 ^ (k + 54) * den := by gcongr
  have hquotient : 2 * hiddenBit ≤ num * twoTo (-k).toNat / (den * twoTo k.toNat) ↔ (2 : ℚ) ^ (k + 53) ≤ num / den := by
    have hpos : 0 < den * twoTo k.toNat := Nat.mul_pos hden (Nat.two_pow_pos _)
    have hcast : (2 * hiddenBit : ℚ) = 2 ^ (53 : ℤ) := by norm_num [hiddenBit]
    rw [Nat.le_div_iff_mul_le hpos, ← @Nat.cast_le ℚ, Nat.cast_mul, ← le_div_iff₀ (by exact_mod_cast hpos),
      scaled_quotient, le_div_iff₀ (by positivity), Nat.cast_mul, Nat.cast_ofNat, hcast, ← zpow_add₀ htwo, add_comm]
  split
  · rename_i hbig
    have hbig := hquotient.1 hbig
    refine ⟨by omega, hhigh.trans_le (zpow_le_zpow_right₀ one_le_two (by omega)), ?_⟩
    rcases Int.le_total (-1074) (k + 1) with hk' | hk'
    · rw [max_eq_left hk', show k + 1 + 52 = k + 53 by omega]
      exact .inr hbig
    · exact .inl (max_eq_right hk')
  · rename_i hsmall
    have hsmall := lt_of_not_ge (mt hquotient.2 hsmall)
    refine ⟨by omega, hsmall.trans_le (zpow_le_zpow_right₀ one_le_two (by omega)), ?_⟩
    rcases Int.le_total (-1074) k with hk' | hk'
    · rw [max_eq_left hk']
      exact .inr hlow
    · exact .inl (max_eq_right hk')

theorem scaleOf_eq {num den : Nat} (hnum : 0 < num) (hden : 0 < den) {k : ℤ} (hk : IsScale (num / den) k) :
    scaleOf num den = k :=
  le_antisymm ((isScale_scaleOf hnum hden).le hk) (hk.le (isScale_scaleOf hnum hden))

/-- The integer that a quotient is rounded to at a scale. -/
theorem roundQuotient_scaled {num den q : Nat} {k : ℤ} (hden : 0 < den) (hlow : (q : ℚ) - 1 / 2 ≤ num / den / 2 ^ k)
    (hhigh : (num / den / 2 ^ k : ℚ) ≤ q + 1 / 2)
    (hodd : q % 2 = 1 → (q : ℚ) - 1 / 2 < num / den / 2 ^ k ∧ (num / den / 2 ^ k : ℚ) < q + 1 / 2) :
    roundQuotient (num * twoTo (-k).toNat) (den * twoTo k.toNat) = q := by
  have hpos : 0 < den * twoTo k.toNat := Nat.mul_pos hden (Nat.two_pow_pos _)
  rw [← scaled_quotient] at hlow hhigh hodd
  generalize num * twoTo (-k).toNat = a at *
  generalize den * twoTo k.toNat = b at *
  have hb : (0 : ℚ) < b := by exact_mod_cast hpos
  rw [le_div_iff₀ hb] at hlow
  rw [div_le_iff₀ hb] at hhigh
  rw [lt_div_iff₀ hb, div_lt_iff₀ hb] at hodd
  refine roundQuotient_eq ?_ ?_ (fun h => ⟨?_, ?_⟩) hpos
  · qify
    linarith
  · qify
    linarith
  · have := (hodd h).1
    qify
    linarith
  · have := (hodd h).2
    qify
    linarith

variable {x : Binary64} {num den : Nat}

/-- In units of its last place, what lies in the interval of a number is at most half a unit from its significand, and
just below a power of two a quarter of one. -/
theorem Covers.near {v : ℚ} (hzero : x.isZero = false) (h : x.Covers v) :
    (x.significand : ℚ) - 1 / 2 ≤ v / 2 ^ x.exponent ∧ v / 2 ^ x.exponent ≤ x.significand + 1 / 2 ∧
      (x.significand % 2 = 1 → (x.significand : ℚ) - 1 / 2 < v / 2 ^ x.exponent ∧
        v / 2 ^ x.exponent < x.significand + 1 / 2) ∧
      (x.significand = hiddenBit → x.exponent ≠ -1074 → (x.significand : ℚ) - 1 / 4 ≤ v / 2 ^ x.exponent) := by
  have hpos := significand_pos hzero
  have hmagnitude := x.magnitude_eq
  have hquarter : v / 2 ^ (x.exponent - 2) = 4 * (v / 2 ^ x.exponent) := by
    rw [zpow_sub₀ two_ne_zero]
    norm_num
    ring
  obtain ⟨hlow, hhigh, hodd⟩ := h
  rw [hquarter] at hlow hhigh hodd
  have hsecond : (x.readingEnds.2 : ℚ) = 4 * x.significand + 2 := by simp [readingEnds]
  have hfirst : (4 * x.significand - 2 : ℚ) ≤ x.readingEnds.1 := by
    have hnat : 4 * x.significand ≤ x.readingEnds.1 + 2 := by
      simp only [readingEnds]
      split <;> omega
    qify at hnat
    linarith
  rw [hsecond] at hhigh hodd
  refine ⟨by linarith, by linarith, fun h => ⟨?_, ?_⟩, fun hm hexponent => ?_⟩
  · linarith [(hodd h).1]
  · linarith [(hodd h).2]
  · have hnat : 4 * x.significand ≤ x.readingEnds.1 + 1 := by
      have hbounds : 2 * hiddenBit ≤ x.magnitude := by
        unfold exponent hiddenBit at *
        omega
      simp only [readingEnds, hm, hbounds, and_self, if_true]
      omega
    qify at hnat
    linarith

theorem zpow_exponent_add (x : Binary64) (k : ℤ) : (2 : ℚ) ^ (x.exponent + k) = 2 ^ k * 2 ^ x.exponent := by
  rw [zpow_add₀ two_ne_zero, mul_comm]

/-- What lies in the interval has the number's own scale, unless it is just below a power of two. -/
theorem Covers.isScale {v : ℚ} (hfinite : x.isFinite = true) (hzero : x.isZero = false) (h : x.Covers v)
    (hbits : x.exponent = -1074 ∨ (hiddenBit : ℚ) ≤ v / 2 ^ x.exponent) : IsScale v x.exponent := by
  obtain ⟨-, hhigh, -, -⟩ := h.near hzero
  have hunit : (0 : ℚ) < 2 ^ x.exponent := by positivity
  have hsignificand : (x.significand : ℚ) + 1 ≤ 2 ^ (53 : ℤ) := by
    have hlt := x.significand_lt
    unfold hiddenBit at hlt
    norm_num
    exact_mod_cast hlt
  refine ⟨(exponent_bounds hfinite).1, ?_, hbits.imp_right fun hge => ?_⟩
  · rw [zpow_exponent_add, ← div_lt_iff₀ hunit]
    linarith
  · rw [zpow_exponent_add, ← le_div_iff₀ hunit]
    norm_num [hiddenBit] at hge ⊢
    exact hge

/-- What lies in the interval just below a power of two has a scale that is one less. -/
theorem Covers.isScale_below {v : ℚ} (hfinite : x.isFinite = true) (hzero : x.isZero = false) (h : x.Covers v)
    (hexponent : x.exponent ≠ -1074) (hbelow : v / 2 ^ x.exponent < hiddenBit) :
    x.significand = hiddenBit ∧ IsScale v (x.exponent - 1) := by
  obtain ⟨hlow, -, -, hquarter⟩ := h.near hzero
  have hleast := (exponent_bounds hfinite).1
  have hunit : (0 : ℚ) < 2 ^ x.exponent := by positivity
  have hhidden : x.significand = hiddenBit := by
    have hge := x.hiddenBit_le.resolve_right hexponent
    have hle : (x.significand : ℚ) < hiddenBit + 1 := by linarith
    have hle : x.significand < hiddenBit + 1 := by exact_mod_cast hle
    omega
  have hquarter := hquarter hhidden hexponent
  rw [hhidden] at hquarter
  refine ⟨hhidden, by omega, ?_, .inr ?_⟩
  · rw [show x.exponent - 1 + 53 = x.exponent + 52 by ring, zpow_exponent_add, ← div_lt_iff₀ hunit]
    norm_num [hiddenBit] at hbelow ⊢
    exact hbelow
  · rw [show x.exponent - 1 + 52 = x.exponent + 51 by ring, zpow_exponent_add, ← le_div_iff₀ hunit]
    norm_num [hiddenBit] at hquarter ⊢
    linarith

/-- **What lies in the interval of a number is rounded to it.** -/
theorem nearestRatio_eq (hfinite : x.isFinite = true) (hzero : x.isZero = false) (hnum : 0 < num) (hden : 0 < den)
    (h : x.Covers (num / den)) : nearestRatio num den = x.magnitude := by
  obtain ⟨hlow, hhigh, hodd, hquarter⟩ := h.near hzero
  have hmagnitude := x.magnitude_eq
  have hlt := magnitude_lt hfinite
  have hleast := (exponent_bounds hfinite).1
  unfold nearestRatio
  rw [if_neg hnum.ne']
  simp only
  by_cases hbelow : x.exponent ≠ -1074 ∧ (num / den / 2 ^ x.exponent : ℚ) < hiddenBit
  · -- The significand at the lesser scale is rounded up to the next power of two.
    obtain ⟨hhidden, hscale⟩ := h.isScale_below hfinite hzero hbelow.1 hbelow.2
    have hquarter := hquarter hhidden hbelow.1
    rw [hhidden] at hquarter
    have hhalf : (num / den / 2 ^ (x.exponent - 1) : ℚ) = 2 * (num / den / 2 ^ x.exponent) := by
      rw [zpow_sub_one₀ two_ne_zero]
      field_simp
    have hround : roundQuotient (num * twoTo (-(x.exponent - 1)).toNat) (den * twoTo (x.exponent - 1).toNat) =
        2 * hiddenBit := by
      refine roundQuotient_scaled hden ?_ ?_ fun h => ?_
      · push_cast
        linarith
      · push_cast
        linarith [hbelow.2]
      · unfold hiddenBit at h
        omega
    rw [scaleOf_eq hnum hden hscale, hround]
    unfold hiddenBit infinity at *
    omega
  · have hscale := h.isScale hfinite hzero ((not_and_or.1 hbelow).imp not_not.1 le_of_not_gt)
    rw [scaleOf_eq hnum hden hscale, roundQuotient_scaled hden hlow hhigh hodd]
    unfold hiddenBit infinity at *
    omega

end Binary64
end SeriesCache
