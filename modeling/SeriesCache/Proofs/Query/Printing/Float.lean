import SeriesCache.Proofs.Number.Shortest
import SeriesCache.Proofs.Query.Printing.Number
/-!
# Reading printed floats

A finite float is read again from its literal (`Numeric.again_floatText`), which always has a point.  Without the point
of whole numbers it is read as an integer, and that as the same number, below `2 ^ 63` (`Numeric.again_plain`); from
there on, and where there are no digits, it is not read at all (`Numeric.reader_plain_large`).
-/
namespace SeriesCache

open Reader
open Text (Lacks)
open Decimal (IsDigits)

/-! ## Printed numerals -/

namespace Layout

variable {x : Binary64} {n : Numeral}

theorem plain_numeral (n : Numeral) : plain.numeral n = plain.withPoint (Decimal.text n.digits) n.exponent := by
  unfold numeral
  exact if_pos (Bool.or_true _)

theorem plain_text (hfinite : x.isFinite = true) :
    plain.text x = Decimal.signText x.isNegative ++ plain.numeral (x.shortest .up) := by
  have hlt := Binary64.magnitude_lt hfinite
  have hnan : x.isNan = false := decide_eq_false (Nat.not_lt.2 hlt.le)
  have hinfinite : x.isInfinite = false := beq_eq_false_iff_ne.2 hlt.ne
  unfold text
  rw [hnan, hinfinite]
  rfl

/-- What is not finite prints as a word, with a sign or without. -/
theorem plain_text_of_not_finite (h : x.isFinite = false) :
    plain.text x = "NaN".toList ∨ plain.text x = "inf".toList ∨ plain.text x = "-inf".toList := by
  unfold text
  split
  · exact .inl rfl
  · split
    · cases x.isNegative
      · exact .inr (.inl rfl)
      · exact .inr (.inr rfl)
    · rename_i hnan hinfinite
      unfold Binary64.isNan Binary64.isInfinite Binary64.isFinite at *
      simp only [decide_eq_true_eq, beq_iff_eq, decide_eq_false_iff_not] at hnan hinfinite h
      omega

/-- A whole numeral is printed as the digits of its value. -/
theorem numeral_whole (h : 0 ≤ n.exponent) : IsDigits (plain.numeral n) ∧
    Decimal.value (plain.numeral n) = n.digits * 10 ^ n.exponent.toNat := by
  have hdigits := Decimal.isDigits_text n.digits
  have htext : plain.numeral n = Decimal.text n.digits ++ zeros n.exponent.toNat := by
    rw [plain_numeral, withPoint, if_pos h]
    exact List.append_nil _
  rw [htext]
  refine ⟨⟨List.append_ne_nil_of_left_ne_nil hdigits.ne_nil _, ?_⟩, ?_⟩
  · rw [List.all_append, hdigits.all]
    simp [zeros]
  · rw [Decimal.value_append, Decimal.value_text, zeros, Decimal.value_zeros, List.length_replicate, Nat.add_zero,
      Nat.mul_comm]
    rfl

/-- Any other numeral is printed with as many places as it has. -/
theorem numeral_places (h : n.exponent < 0) : ∃ whole ds : Text, plain.numeral n = whole ++ '.' :: ds ∧
    IsDigits whole ∧ IsDigits ds ∧ Decimal.value (whole ++ ds) = n.digits ∧ n.exponent = -ds.length := by
  have hdigits := Decimal.isDigits_text n.digits
  have hall := List.all_eq_true.1 hdigits.all
  obtain ⟨places, hplaces⟩ := Int.eq_ofNat_of_zero_le (Int.neg_nonneg_of_nonpos h.le)
  rw [plain_numeral, withPoint, if_neg (Int.not_le.2 h), hplaces]
  simp only [Int.toNat_natCast]
  split
  · refine ⟨_, _, rfl, ⟨?_, List.all_eq_true.2 fun c hc => hall c (List.mem_of_mem_take hc)⟩,
      ⟨?_, List.all_eq_true.2 fun c hc => hall c (List.mem_of_mem_drop hc)⟩, ?_, ?_⟩
    · refine List.ne_nil_of_length_pos ?_
      rw [List.length_take]
      omega
    · refine List.ne_nil_of_length_pos ?_
      rw [List.length_drop]
      omega
    · rw [List.take_append_drop, Decimal.value_text]
    · rw [List.length_drop]
      omega
  · refine ⟨['0'], zeros (places - (Decimal.text n.digits).length) ++ Decimal.text n.digits, rfl, ⟨by simp, rfl⟩,
      ⟨List.append_ne_nil_of_right_ne_nil _ hdigits.ne_nil, ?_⟩, ?_, ?_⟩
    · rw [List.all_append, hdigits.all]
      simp [zeros]
    · have hzeros : ['0'] ++ (zeros (places - (Decimal.text n.digits).length) ++ Decimal.text n.digits) =
          List.replicate (places - (Decimal.text n.digits).length + 1) '0' ++ Decimal.text n.digits := rfl
      rw [hzeros, Decimal.value_append, Decimal.value_zeros, Decimal.value_text, Nat.mul_zero, Nat.zero_add]
    · rw [List.length_append, zeros, List.length_replicate]
      omega

theorem numeral_start (n : Numeral) : Text.startsWith Char.isDigit (plain.numeral n) = true := by
  by_cases h : 0 ≤ n.exponent
  · exact List.append_nil (plain.numeral n) ▸ (numeral_whole h).1.startsWith []
  · obtain ⟨whole, ds, htext, hwhole, -⟩ := numeral_places (Int.not_le.1 h)
    rw [htext]
    exact hwhole.startsWith _

/-- A finite number starts with its sign or a digit. -/
theorem plain_start (hfinite : x.isFinite = true) :
    Text.startsWith (fun c => c == '-' || c.isDigit) (plain.text x) = true := by
  rw [plain_text hfinite, Decimal.signText]
  split
  · rfl
  · exact Text.startsWith_imp (numeral_start _) fun c hc => by rw [hc, Bool.or_true]

theorem plain_text_start (x : Binary64) : plain.text x ≠ [] ∧ Lacks Text.isBlank (plain.text x) := by
  cases hfinite : x.isFinite with
  | true => exact Text.lacks_of_sign rfl (by decide) (plain_start hfinite)
  | false => rcases plain_text_of_not_finite hfinite with h | h | h <;> rw [h] <;> exact ⟨by decide, rfl⟩

end Layout

/-! ## Reading them -/

namespace Numeric

variable {x : Binary64}

/-- A number with places is read again. -/
theorem again_plain_places (hfinite : x.isFinite = true) (hintegral : x.isIntegral = false) :
    reader.Again (Lacks Text.goesOn) (Layout.plain.text x) (.float x) := by
  have hzero := Binary64.isZero_of_not_integral hintegral
  have hcovers := Binary64.covers_shortest .up hzero
  obtain ⟨whole, ds, htext, hwhole, hplaces, hvalue, hexponent⟩ :=
    Layout.numeral_places (Binary64.exponent_neg hzero hintegral hcovers)
  rw [Layout.plain_text hfinite, htext]
  have hagain := again_float x.isNegative hwhole hplaces
  rwa [hvalue, ← hexponent, Binary64.ofDecimal_eq hfinite hzero hcovers, Binary64.ofMagnitude_magnitude] at hagain

/-- One place behind all the digits of a whole number changes nothing. -/
theorem ofDecimal_whole (hfinite : x.isFinite = true) (hintegral : x.isIntegral = true) :
    Binary64.ofDecimal x.isNegative (x.ratio.1 / x.ratio.2 * 10) (-1) = x := by
  cases hzero : x.isZero with
  | true =>
    have hread : Binary64.ofDecimal x.isNegative 0 (-1) = Binary64.ofMagnitude x.isNegative 0 := by
      unfold Binary64.ofDecimal
      exact if_pos (.inl rfl)
    have hmagnitude : x.magnitude = 0 := beq_iff_eq.1 hzero
    rw [Binary64.ratio_of_isZero hzero, Nat.zero_div, Nat.zero_mul, hread, ← hmagnitude]
    exact x.ofMagnitude_magnitude
  | false =>
    have hcovers := Binary64.covers_absValue hzero
    have hten : Numeral.value ⟨x.ratio.1 / x.ratio.2 * 10, -1⟩ = (x.ratio.1 / x.ratio.2 : ℕ) := by
      unfold Numeral.value
      rw [zpow_neg_one, Nat.cast_mul, Nat.cast_ofNat, mul_inv_cancel_right₀ (by norm_num)]
    rw [Binary64.absValue_of_integral hintegral, ← hten] at hcovers
    exact (Binary64.ofDecimal_eq hfinite hzero hcovers x.isNegative).trans x.ofMagnitude_magnitude

theorem again_exactWhole (hfinite : x.isFinite = true) (hintegral : x.isIntegral = true) :
    reader.Again (Lacks Text.goesOn) (Layout.exactWhole x) (.float x) := by
  have hplace : IsDigits ['0'] := ⟨by simp, rfl⟩
  have hvalue : Decimal.value (Decimal.text (x.ratio.1 / x.ratio.2) ++ ['0']) = x.ratio.1 / x.ratio.2 * 10 := by
    have hzero : Decimal.value ['0'] = 0 := rfl
    rw [Decimal.value_append, Decimal.value_text, hzero, Nat.mul_comm]
    rfl
  have hagain := again_float x.isNegative (Decimal.isDigits_text (x.ratio.1 / x.ratio.2)) hplace
  have hread : Binary64.ofDecimal x.isNegative (x.ratio.1 / x.ratio.2 * 10) (-(['0'] : Text).length) = x :=
    ofDecimal_whole hfinite hintegral
  rw [hvalue, hread] at hagain
  unfold Layout.exactWhole
  rw [List.append_assoc]
  exact hagain

/-- **The literal of a finite float is read again.** -/
theorem again_floatText (hfinite : x.isFinite = true) :
    reader.Again (Lacks Text.goesOn) (Literal.floatText x) (.float x) := by
  unfold Literal.floatText
  rw [hfinite, Bool.true_and]
  cases hintegral : x.isIntegral with
  | false => exact again_plain_places hfinite hintegral
  | true => exact again_exactWhole hfinite hintegral

/-- What is in the interval of a number is the number as an integer. -/
theorem ofInt64_eq {k : ℕ} {n : Int64} (hfinite : x.isFinite = true) (hzero : x.isZero = false) (hcovers : x.Covers k)
    (hn : (if x.isNegative then -(k : Int) else k) = n.toInt) : Binary64.ofInt64 n = x := by
  have hpos : 0 < k := by exact_mod_cast hcovers.pos hzero
  have hnegative : decide (n.toInt < 0) = x.isNegative := by
    rw [← hn]
    split
    · rename_i h
      rw [h]
      exact decide_eq_true (by omega)
    · rename_i h
      rw [Bool.eq_false_iff.2 h]
      exact decide_eq_false (by omega)
  have habs : n.toInt.natAbs = k := by
    rw [← hn]
    split <;> omega
  have hquotient : x.Covers (k / (1 : ℕ)) := by rwa [Nat.cast_one, div_one]
  unfold Binary64.ofInt64 Binary64.ofInt Binary64.ofRatio
  rw [hnegative, habs, Binary64.nearestRatio_eq hfinite hzero hpos Nat.one_pos hquotient]
  exact x.ofMagnitude_magnitude

/-- A number without the sign that zero may have. -/
def settled (x : Binary64) : Binary64 := if x.isZero then Binary64.zero else x

/-- A whole number below `2 ^ 63` is read again as an integer. -/
theorem again_plain_whole (hfinite : x.isFinite = true) (hintegral : x.isIntegral = true) (hsmall : x.exponent ≤ 10) :
    ∃ n : Int64, reader.Again (Lacks Text.goesOn) (Layout.plain.text x) (.integer n) ∧
      Binary64.ofInt64 n = settled x := by
  rw [Layout.plain_text hfinite]
  unfold settled
  cases hzero : x.isZero with
  | true =>
    have hshortest : x.shortest .up = ⟨0, 0⟩ := by
      unfold Binary64.shortest
      exact if_pos hzero
    rw [hshortest]
    have hdigits : IsDigits (Layout.plain.numeral ⟨0, 0⟩) := (Layout.numeral_whole (le_refl 0)).1
    exact ⟨0, again_integer hdigits (by cases x.isNegative <;> decide), if_pos rfl ▸ by decide⟩
  | false =>
    have hcovers := Binary64.covers_shortest .up hzero
    have hnonneg := Binary64.exponent_nonneg .up hzero hintegral hsmall
    obtain ⟨hdigits, hvalue⟩ := Layout.numeral_whole hnonneg
    rw [Binary64.value_of_nonneg hnonneg, ← hvalue] at hcovers
    have hlt := Binary64.whole_lt hzero hsmall hcovers
    obtain ⟨n, hn⟩ : ∃ n : Int64, (if x.isNegative then -(Decimal.value (Layout.plain.numeral (x.shortest .up)) : Int)
        else Decimal.value (Layout.plain.numeral (x.shortest .up))) = n.toInt :=
      ⟨.ofInt _, (Int64.toInt_ofInt_of_le (by split <;> omega) (by split <;> omega)).symm⟩
    exact ⟨n, again_integer hdigits hn, (ofInt64_eq hfinite hzero hcovers hn).trans (if_neg Bool.false_ne_true).symm⟩

theorem isFinite_of_small (hsmall : x.magnitude < 0x43E0000000000000) : x.isFinite = true := by
  unfold Binary64.isFinite Binary64.infinity
  simp only [decide_eq_true_eq]
  omega

/-- **A number below `2 ^ 63` is read again**, up to the sign of zero. -/
theorem again_plain (hsmall : x.magnitude < 0x43E0000000000000) :
    ∃ n, reader.Again (Lacks Text.goesOn) (Layout.plain.text x) n ∧ n.toFloat = settled x := by
  have hfinite := isFinite_of_small hsmall
  cases hintegral : x.isIntegral with
  | false =>
    refine ⟨.float x, again_plain_places hfinite hintegral, ?_⟩
    unfold settled
    rw [Binary64.isZero_of_not_integral hintegral]
    rfl
  | true =>
    obtain ⟨n, hagain, hn⟩ := again_plain_whole hfinite hintegral (Binary64.exponent_le_iff.2 hsmall)
    exact ⟨.integer n, hagain, hn⟩

/-- **No other number is read from its plain form.** -/
theorem reader_plain_large {rest r : Text} {n : Numeric} (hlarge : 0x43E0000000000000 ≤ x.magnitude)
    (hrest : Lacks Text.goesOn rest) : reader (Layout.plain.text x ++ rest) ≠ .found n r := by
  cases hfinite : x.isFinite with
  | true =>
    have hexponent : 10 < x.exponent := by
      by_contra hle
      have := Binary64.exponent_le_iff.1 (Int.not_lt.1 hle)
      omega
    obtain ⟨hnonneg, hbig⟩ := Binary64.shortest_large hexponent
    obtain ⟨hdigits, hvalue⟩ := Layout.numeral_whole hnonneg
    rw [← hvalue] at hbig
    obtain ⟨r, hfailed⟩ := reader_large x.isNegative hdigits hbig hrest
    rw [Layout.plain_text hfinite, List.append_assoc, hfailed]
    exact fun h => by cases h
  | false =>
    have hrefused : reader (Layout.plain.text x ++ rest) = .refused := by
      rcases Layout.plain_text_of_not_finite hfinite with h | h | h <;> rw [h]
      · exact reader_refused rfl
      · exact reader_refused rfl
      · rfl
    rw [hrefused]
    exact fun h => by cases h

end Numeric
end SeriesCache
