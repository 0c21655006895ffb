import SeriesCache.Proofs.Lists
import SeriesCache.Proofs.Number.Rounding
/-!
# What the shortest numeral reads back to

The shortest numeral of a number lies in its interval (`covers_shortest`), and so it is rounded to the number
(`ofDecimal_eq`).  It is a whole number exactly when the number is one, as long as that is below `2 ^ 63`; from there on
it is above (`shortest_large`).
-/
namespace SeriesCache.Binary64

variable {x : Binary64} {n : Numeral} {tie : Tie}

/-! ## The numeral and the interval -/

/-- The absolute value of a finite number. -/
def absValue (x : Binary64) : ℚ := x.significand * 2 ^ x.exponent

theorem ratio_pos (x : Binary64) : 0 < x.ratio.2 := Nat.two_pow_pos _

theorem ratio_div (x : Binary64) : (x.ratio.1 / x.ratio.2 : ℚ) = x.absValue := by
  unfold ratio absValue
  rw [Nat.cast_mul, cast_twoTo, cast_twoTo, zpow_eq_toNat 2 x.exponent, mul_div_assoc]

theorem absValue_of_integral (h : x.isIntegral = true) : x.absValue = (x.ratio.1 / x.ratio.2 : ℕ) := by
  have hpos : (0 : ℚ) < x.ratio.2 := by exact_mod_cast x.ratio_pos
  obtain ⟨k, hk⟩ := Nat.dvd_of_mod_eq_zero (beq_iff_eq.1 h)
  rw [← ratio_div, hk, Nat.mul_div_cancel_left k x.ratio_pos, Nat.cast_mul, mul_div_cancel_left₀ _ hpos.ne']

theorem isIntegral_iff : x.isIntegral = true ↔ ∃ k : ℕ, x.absValue = k := by
  refine ⟨fun h => ⟨_, absValue_of_integral h⟩, fun ⟨k, hk⟩ => ?_⟩
  have hpos : (0 : ℚ) < x.ratio.2 := by exact_mod_cast x.ratio_pos
  rw [← ratio_div, div_eq_iff hpos.ne'] at hk
  have hk : x.ratio.1 = k * x.ratio.2 := by exact_mod_cast hk
  unfold isIntegral
  rw [hk, Nat.mul_mod_left]
  rfl

theorem ratio_of_isZero (h : x.isZero = true) : x.ratio.1 = 0 := by
  have hmagnitude : x.magnitude = 0 := beq_iff_eq.1 h
  have hsignificand : x.significand = 0 := by
    unfold significand
    rw [hmagnitude]
    rfl
  unfold ratio
  rw [hsignificand, Nat.zero_mul]

theorem isZero_of_not_integral (h : x.isIntegral = false) : x.isZero = false := by
  refine Bool.eq_false_iff.2 fun hzero => Bool.eq_false_iff.1 h ?_
  unfold isIntegral
  rw [ratio_of_isZero hzero, Nat.zero_mod]
  rfl

theorem covers_absValue (hzero : x.isZero = false) : x.Covers x.absValue := by
  have hpos := significand_pos hzero
  have hquarter : x.absValue / 2 ^ (x.exponent - 2) = 4 * x.significand := by
    have hunit : (2 : ℚ) ^ x.exponent ≠ 0 := by positivity
    rw [absValue, zpow_sub₀ two_ne_zero]
    field_simp
    norm_num
  have hlow : x.readingEnds.1 + 1 ≤ 4 * x.significand := by
    simp only [readingEnds]
    split <;> omega
  have hhigh : x.readingEnds.2 = 4 * x.significand + 2 := rfl
  qify at hlow hhigh
  refine ⟨?_, ?_, fun _ => ⟨?_, ?_⟩⟩ <;> rw [hquarter] <;> linarith

theorem value_expansion (x : Binary64) : x.expansion.value = x.absValue := by
  have hten (k : ℕ) : (10 : ℚ) ^ k = 2 ^ k * 5 ^ k := by rw [← mul_pow]; norm_num
  unfold expansion Numeral.value
  simp only
  rw [zpow_neg, zpow_natCast, hten, ← ratio_div]
  unfold ratio
  simp only [Nat.cast_mul, cast_twoTo, Nat.pow_eq, Nat.cast_pow, Nat.cast_ofNat]
  field_simp

theorem covers_of_onGrid? {e : ℤ} (h : onGrid? tie x e = some n) : x.Covers n.value ∧ n.exponent = e := by
  unfold onGrid? at h
  simp only at h
  split at h
  · rename_i hbelow habove
    have hboth {c : Prop} [Decidable c] {a b : Numeral} (ha : x.isReadAs a = true) (hb : x.isReadAs b = true) :
        x.isReadAs (if c then a else b) = true := by split <;> assumption
    split at h
    · cases h
      exact ⟨isReadAs_iff.1 hbelow, rfl⟩
    · split at h
      · cases h
        exact ⟨isReadAs_iff.1 habove, rfl⟩
      · cases h
        refine ⟨isReadAs_iff.1 (hboth habove hbelow), ?_⟩
        split <;> rfl
  · rename_i hbelow _
    cases h
    exact ⟨isReadAs_iff.1 hbelow, rfl⟩
  · rename_i _ habove
    cases h
    exact ⟨isReadAs_iff.1 habove, rfl⟩
  · cases h

/-- The shortest numeral is on one of the grids that are tried, or has all the places. -/
theorem shortest_cases (tie : Tie) (hzero : x.isZero = false) :
    (∃ e ∈ x.gridExponents, onGrid? tie x e = some (x.shortest tie)) ∨
      x.gridExponents.findSome? (onGrid? tie x) = none ∧ x.shortest tie = x.expansion := by
  unfold shortest
  rw [if_neg (by rw [hzero]; exact Bool.false_ne_true)]
  cases hfind : x.gridExponents.findSome? (onGrid? tie x) with
  | none => exact .inr ⟨rfl, rfl⟩
  | some n => exact .inl (List.exists_of_findSome?_eq_some hfind)

/-- **The shortest numeral lies in the interval of the number.** -/
theorem covers_shortest (tie : Tie) (hzero : x.isZero = false) : x.Covers (x.shortest tie).value := by
  rcases shortest_cases tie hzero with ⟨e, -, h⟩ | ⟨-, h⟩
  · exact (covers_of_onGrid? h).1
  · rw [h, value_expansion]
    exact covers_absValue hzero

/-! ## Reading it back -/

theorem digits_bounds {d : Nat} (hd : 0 < d) :
    10 ^ ((Decimal.text d).length - 1) ≤ d ∧ d < 10 ^ (Decimal.text d).length := by
  have hlength : 0 < (Decimal.text d).length := List.length_pos_iff.2 Nat.toDigits_ne_nil
  refine ⟨?_, (Nat.length_toDigits_le_iff (by decide) hlength).1 (Nat.le_refl _)⟩
  rcases Nat.eq_zero_or_pos ((Decimal.text d).length - 1) with h | h
  · rw [h]
    exact hd
  · refine Nat.le_of_not_lt fun hlt => ?_
    have hle := (Nat.length_toDigits_le_iff (by decide) h).2 hlt
    unfold Decimal.text at *
    omega

theorem Covers.pos {v : ℚ} (hzero : x.isZero = false) (h : x.Covers v) : 0 < v := by
  have hsignificand : (1 : ℚ) ≤ x.significand := by exact_mod_cast significand_pos hzero
  have hunit : (0 : ℚ) < 2 ^ x.exponent := by positivity
  have hlow := (h.near hzero).1
  have hpos : 0 < v / 2 ^ x.exponent := by linarith
  exact (div_pos_iff_of_pos_right hunit).1 hpos

theorem Covers.bounds {v : ℚ} (hfinite : x.isFinite = true) (hzero : x.isZero = false) (h : x.Covers v) :
    (2 : ℚ) ^ (-1075 : ℤ) ≤ v ∧ v < 2 ^ (1024 : ℤ) := by
  obtain ⟨hlow, hhigh, -⟩ := h.near hzero
  obtain ⟨hleast, hmost⟩ := exponent_bounds hfinite
  have hone : (1 : ℚ) ≤ x.significand := by exact_mod_cast significand_pos hzero
  have hlt : (x.significand : ℚ) + 1 ≤ 2 ^ (53 : ℤ) := by
    have := x.significand_lt
    unfold hiddenBit at this
    norm_num
    exact_mod_cast this
  have hunit : (0 : ℚ) < 2 ^ x.exponent := by positivity
  rw [le_div_iff₀ hunit] at hlow
  rw [div_le_iff₀ hunit] at hhigh
  constructor
  · calc (2 : ℚ) ^ (-1075 : ℤ) = 1 / 2 * 2 ^ (-1074 : ℤ) := by
          rw [show (-1075 : ℤ) = -1 + -1074 by norm_num, zpow_add₀ two_ne_zero, zpow_neg_one, one_div]
      _ ≤ 1 / 2 * 2 ^ x.exponent := by gcongr; norm_num
      _ ≤ (x.significand - 1 / 2) * 2 ^ x.exponent := by gcongr; linarith
      _ ≤ v := hlow
  · calc v ≤ (x.significand + 1 / 2) * 2 ^ x.exponent := hhigh
      _ < 2 ^ (53 : ℤ) * 2 ^ x.exponent := by gcongr; linarith
      _ ≤ 2 ^ (53 : ℤ) * 2 ^ (971 : ℤ) := by gcongr; norm_num
      _ = 2 ^ (1024 : ℤ) := by rw [← zpow_add₀ two_ne_zero]; norm_num

/-- **A decimal in the interval of a number is read as the number.** -/
theorem ofDecimal_eq (hfinite : x.isFinite = true) (hzero : x.isZero = false) (h : x.Covers n.value) (negative : Bool) :
    ofDecimal negative n.digits n.exponent = ofMagnitude negative x.magnitude := by
  obtain ⟨hlow, hhigh⟩ := h.bounds hfinite hzero
  have hvalue := h.pos hzero
  have hten : (0 : ℚ) < 10 ^ n.exponent := by positivity
  have hdigits : 0 < n.digits := by
    rw [Numeral.value] at hvalue
    exact_mod_cast (mul_pos_iff_of_pos_right hten).1 hvalue
  obtain ⟨hfirst, hlast⟩ := digits_bounds hdigits
  have hlength : 0 < (Decimal.text n.digits).length := List.length_pos_iff.2 Nat.toDigits_ne_nil
  generalize hwidth : (Decimal.text n.digits).length = width at *
  have hleast : -400 ≤ n.exponent + width := by
    by_contra hlt
    have hvalue : n.value < 10 ^ (n.exponent + width) := by
      have hlast : (n.digits : ℚ) < 10 ^ width := by exact_mod_cast hlast
      rw [Numeral.value, zpow_add₀ (by norm_num), zpow_natCast, mul_comm]
      gcongr
    have hpower := hlow.trans_lt (hvalue.trans_le (ten_zpow_le (by omega)))
    rw [zpow_lt_zpow_iff_right₀ one_lt_two] at hpower
    omega
  have hmost : n.exponent + width ≤ 400 := by
    by_contra hlt
    have hvalue : 10 ^ (n.exponent + (width - 1 : ℕ)) ≤ n.value := by
      have hfirst : (10 : ℚ) ^ (width - 1) ≤ n.digits := by exact_mod_cast hfirst
      rw [Numeral.value, zpow_add₀ (by norm_num), zpow_natCast, mul_comm]
      gcongr
    have hpower := (le_ten_zpow (by omega)).trans_lt (hvalue.trans_lt hhigh)
    rw [zpow_lt_zpow_iff_right₀ one_lt_two] at hpower
    omega
  have hquotient : ((n.digits * Decimal.tenTo n.exponent.toNat : ℕ) / (Decimal.tenTo (-n.exponent).toNat : ℕ) : ℚ) =
      n.value := by
    rw [Numeral.value, zpow_eq_toNat 10 n.exponent, Nat.cast_mul, ← mul_div_assoc]
    simp only [Decimal.tenTo, Nat.pow_eq, Nat.cast_pow, Nat.cast_ofNat]
  unfold ofDecimal
  simp only [hwidth]
  rw [if_neg (by omega), if_neg (by omega), ofRatio, nearestRatio_eq hfinite hzero (Nat.mul_pos hdigits ?_) ?_ ?_]
  · exact Nat.pow_pos (by decide)
  · exact Nat.pow_pos (by decide)
  · rw [hquotient]
    exact h

/-- A number is its magnitude with its sign. -/
theorem ofMagnitude_magnitude (x : Binary64) : ofMagnitude x.isNegative x.magnitude = x := by
  have hlt : x.bits.toNat < 2 * signBit := x.bits.toNat_lt
  have hbits : (x.magnitude + if x.isNegative = true then signBit else 0) = x.bits.toNat := by
    unfold magnitude isNegative
    simp only [decide_eq_true_eq]
    unfold signBit at *
    split <;> omega
  rw [ofMagnitude, hbits]
  exact congrArg Binary64.mk (UInt64.ofNat_toNat ..)

/-! ## Whole numbers -/

theorem value_of_nonneg (h : 0 ≤ n.exponent) : n.value = (n.digits * 10 ^ n.exponent.toNat : ℕ) := by
  obtain ⟨k, hk⟩ := Int.eq_ofNat_of_zero_le h
  rw [Numeral.value, hk, zpow_natCast]
  simp

/-- Nothing but the number itself is a whole number in its interval, when its last place is behind the point. -/
theorem eq_absValue_of_whole {k : ℕ} (hzero : x.isZero = false) (hexponent : x.exponent ≤ 0) (h : x.Covers k) :
    x.absValue = k := by
  obtain ⟨hlow, hhigh, -⟩ := h.near hzero
  obtain ⟨p, hp⟩ := Int.eq_ofNat_of_zero_le (Int.neg_nonneg_of_nonpos hexponent)
  have hp : x.exponent = -(p : ℤ) := by omega
  rw [hp, zpow_neg, div_inv_eq_mul, zpow_natCast] at hlow hhigh
  have hle : (x.significand : ℚ) < k * 2 ^ p + 1 := by linarith
  have hge : (k * 2 ^ p : ℚ) < x.significand + 1 := by linarith
  have heq : x.significand = k * 2 ^ p := by
    have hle : x.significand < k * 2 ^ p + 1 := by exact_mod_cast hle
    have hge : k * 2 ^ p < x.significand + 1 := by exact_mod_cast hge
    omega
  rw [absValue, hp, heq, zpow_neg, zpow_natCast]
  push_cast
  field_simp

theorem exponent_lt_of_not_integral (h : x.isIntegral = false) : x.exponent < 0 := by
  by_contra hnonneg
  obtain ⟨p, hp⟩ := Int.eq_ofNat_of_zero_le (Int.not_lt.1 hnonneg)
  refine Bool.eq_false_iff.1 h (isIntegral_iff.2 ⟨x.significand * 2 ^ p, ?_⟩)
  rw [absValue, hp, zpow_natCast]
  push_cast
  rfl

/-- **The numeral of a number with places has places.** -/
theorem exponent_neg (hzero : x.isZero = false) (hintegral : x.isIntegral = false) (h : x.Covers n.value) :
    n.exponent < 0 := by
  by_contra hnonneg
  rw [value_of_nonneg (Int.not_lt.1 hnonneg)] at h
  exact Bool.eq_false_iff.1 hintegral (isIntegral_iff.2
    ⟨_, eq_absValue_of_whole hzero (exponent_lt_of_not_integral hintegral).le h⟩)

theorem log2_significand (hzero : x.isZero = false) : x.significand.log2 ≤ 52 := by
  have hlt : x.significand < 2 ^ 53 := x.significand_lt
  have := (Nat.log2_lt (significand_pos hzero).ne').2 hlt
  omega

/-- The numbers below `2 ^ 63` are those with the lower exponents. -/
theorem exponent_le_iff : x.exponent ≤ 10 ↔ x.magnitude < 0x43E0000000000000 := by
  unfold exponent hiddenBit
  omega

theorem onGrid?_zero_ne_none (tie : Tie) (hzero : x.isZero = false) (hintegral : x.isIntegral = true) :
    onGrid? tie x 0 ≠ none := by
  have hbelow : x.isReadAs ⟨x.ratio.1 / x.ratio.2, 0⟩ = true := by
    have hvalue : Numeral.value ⟨x.ratio.1 / x.ratio.2, 0⟩ = x.absValue := by
      rw [Numeral.value, zpow_zero, mul_one, absValue_of_integral hintegral]
    refine isReadAs_iff.2 ?_
    rw [hvalue]
    exact covers_absValue hzero
  have hone : Decimal.tenTo 0 = 1 := rfl
  unfold onGrid?
  simp only [neg_zero, Int.toNat_zero, hone, Nat.mul_one, hbelow]
  split
  · split
    · exact Option.some_ne_none _
    · split <;> exact Option.some_ne_none _
  · exact Option.some_ne_none _
  · rename_i h _
    cases h
  · rename_i h _
    cases h

theorem pairwise_gridExponents (x : Binary64) : x.gridExponents.Pairwise (· > ·) := by
  unfold gridExponents
  simp only
  refine List.Pairwise.map _ (fun a b hab => ?_) (List.pairwise_lt_range (n := 21))
  omega

/-- **The numeral of a whole number below `2 ^ 63` is a whole number.** -/
theorem exponent_nonneg (tie : Tie) (hzero : x.isZero = false) (hintegral : x.isIntegral = true)
    (hsmall : x.exponent ≤ 10) : 0 ≤ (x.shortest tie).exponent := by
  have hlog := log2_significand hzero
  have hwidth : 0 < x.significand.log2 + x.exponent + 1 := by
    obtain ⟨k, hk⟩ := isIntegral_iff.1 hintegral
    have hpos := (covers_absValue hzero).pos hzero
    rw [hk] at hpos
    have hone : (1 : ℚ) ≤ k := by exact_mod_cast hpos
    have hlt := (log2_bounds (significand_pos hzero)).2
    have hpower : (2 : ℚ) ^ (0 : ℤ) < 2 ^ (x.significand.log2 + x.exponent + 1 : ℤ) := by
      calc (2 : ℚ) ^ (0 : ℤ) ≤ x.absValue := by rw [hk, zpow_zero]; exact hone
        _ < 2 ^ ((x.significand.log2 : ℤ) + 1) * 2 ^ x.exponent := by unfold absValue; gcongr
        _ = 2 ^ (x.significand.log2 + x.exponent + 1 : ℤ) := by rw [← zpow_add₀ two_ne_zero]; congr 1; omega
    exact (zpow_lt_zpow_iff_right₀ one_lt_two).1 hpower
  have hmem : (0 : ℤ) ∈ x.gridExponents := by
    unfold gridExponents
    simp only [List.mem_map, List.mem_range]
    exact ⟨((x.significand.log2 + x.exponent + 1) * 30103 / 100000 + 1).toNat, by omega, by omega⟩
  have hgrid := onGrid?_zero_ne_none tie hzero hintegral
  unfold shortest
  rw [if_neg (by rw [hzero]; exact Bool.false_ne_true)]
  cases hfind : x.gridExponents.findSome? (onGrid? tie x) with
  | none => exact absurd (List.findSome?_eq_none_iff.1 hfind 0 hmem) hgrid
  | some n =>
    obtain ⟨e, hn, he⟩ := exists_of_findSome?_eq_some x.pairwise_gridExponents hmem hgrid hfind
    rw [Option.getD_some, (covers_of_onGrid? hn).2]
    omega

theorem whole_lt {k : ℕ} (hzero : x.isZero = false) (hsmall : x.exponent ≤ 10) (h : x.Covers k) :
    k < 0x8000000000000000 := by
  have hhigh := (h.near hzero).2.1
  have hunit : (0 : ℚ) < 2 ^ x.exponent := by positivity
  rw [div_le_iff₀ hunit] at hhigh
  have hsignificand : (x.significand : ℚ) + 1 ≤ 2 ^ 53 := by exact_mod_cast x.significand_lt
  have hlt : (k : ℚ) < 0x8000000000000000 := by
    calc (k : ℚ) ≤ (x.significand + 1 / 2) * 2 ^ x.exponent := hhigh
      _ < 2 ^ 53 * 2 ^ x.exponent := by gcongr; linarith
      _ ≤ 2 ^ 53 * 2 ^ (10 : ℤ) := by gcongr; norm_num
      _ = 0x8000000000000000 := by norm_num
  exact_mod_cast hlt

/-! ## Numbers from `2 ^ 63` on -/

theorem isZero_of_large (hlarge : 10 < x.exponent) : x.isZero = false := by
  refine beq_eq_false_iff_ne.2 ?_
  unfold exponent hiddenBit at hlarge
  omega

theorem exponent_nonneg_of_large (tie : Tie) (hlarge : 10 < x.exponent) : 0 ≤ (x.shortest tie).exponent := by
  rcases shortest_cases tie (isZero_of_large hlarge) with ⟨e, he, h⟩ | ⟨-, h⟩
  · have hlog : 52 ≤ x.significand.log2 := by
      have hle : 2 ^ 52 ≤ x.significand := x.hiddenBit_le.resolve_right (by omega)
      exact (Nat.le_log2 (by omega)).2 hle
    unfold gridExponents at he
    simp only [List.mem_map, List.mem_range] at he
    rw [(covers_of_onGrid? h).2]
    omega
  · rw [h]
    unfold expansion
    simp only
    omega

/-- Of `2 ^ 63` itself the numeral is rounded up. -/
theorem shortest_edge (h : x.magnitude = 0x43E0000000000000) : x.shortest .up = ⟨9223372036854776, 3⟩ := by
  rw [← x.ofMagnitude_magnitude, h]
  cases x.isNegative <;> decide

/-- **The numeral of a number from `2 ^ 63` on is a whole number above `2 ^ 63`.** -/
theorem shortest_large (hlarge : 10 < x.exponent) : 0 ≤ (x.shortest .up).exponent ∧
    0x8000000000000000 < (x.shortest .up).digits * 10 ^ (x.shortest .up).exponent.toNat := by
  have hnonneg := exponent_nonneg_of_large .up hlarge
  refine ⟨hnonneg, ?_⟩
  by_cases hedge : x.magnitude = 0x43E0000000000000
  · rw [shortest_edge hedge]
    decide
  · have hlow := ((covers_shortest .up (isZero_of_large hlarge)).near (isZero_of_large hlarge)).1
    have hunit : (0 : ℚ) < 2 ^ x.exponent := by positivity
    rw [value_of_nonneg hnonneg, le_div_iff₀ hunit] at hlow
    have hhidden := x.hiddenBit_le.resolve_right (by omega)
    have hbig : (0x8000000000000000 : ℚ) < (x.significand - 1 / 2) * 2 ^ x.exponent := by
      rcases Int.lt_or_le 11 x.exponent with hexponent | hexponent
      · have hsignificand : (2 ^ 52 : ℚ) ≤ x.significand := by exact_mod_cast hhidden
        calc (0x8000000000000000 : ℚ) < (2 ^ 52 - 1 / 2) * 2 ^ (12 : ℤ) := by norm_num
          _ ≤ (2 ^ 52 - 1 / 2) * 2 ^ x.exponent := by
            gcongr
            · norm_num
            · exact hexponent
          _ ≤ (x.significand - 1 / 2) * 2 ^ x.exponent := by gcongr
      · have hexponent : x.exponent = 11 := by omega
        have hsignificand : (2 ^ 52 + 1 : ℚ) ≤ x.significand := by
          have hmagnitude := x.magnitude_eq
          have hlt : 2 ^ 52 + 1 ≤ x.significand := by
            unfold hiddenBit at *
            omega
          exact_mod_cast hlt
        calc (0x8000000000000000 : ℚ) < (2 ^ 52 + 1 - 1 / 2) * 2 ^ (11 : ℤ) := by norm_num
          _ ≤ (x.significand - 1 / 2) * 2 ^ x.exponent := by
            rw [hexponent]
            gcongr
    exact_mod_cast hbig.trans_le hlow

end SeriesCache.Binary64
