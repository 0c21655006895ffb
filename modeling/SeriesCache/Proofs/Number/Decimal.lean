import SeriesCache.Number.Decimal
import SeriesCache.Proofs.Query.Again
/-!
# Digits and signs

A number is written as digits, at least one, behind its sign (`Decimal.intText_eq`), or with zeros in front of them up to
a width (`Decimal.length_padded`).  Digits are taken off the front of a text up to what is none (`Decimal.span_digits`),
and so is a sign (`Decimal.again_sign`).
-/
namespace SeriesCache

open Reader
open Text (Lacks)

namespace Decimal

/-! ## Digits -/

/-- Digits, at least one. -/
structure IsDigits (t : Text) : Prop where
  ne_nil : t ≠ []
  all : t.all Char.isDigit = true

theorem isDigits_text (n : Nat) : IsDigits (text n) :=
  ⟨Nat.toDigits_ne_nil, List.all_eq_true.2 fun _ hc => Nat.isDigit_of_mem_toDigits (by decide) (by decide) hc⟩

theorem IsDigits.exists_cons {t : Text} (h : IsDigits t) : ∃ c u, t = c :: u ∧ c.isDigit = true := by
  obtain ⟨c, u, rfl⟩ := List.exists_cons_of_ne_nil h.ne_nil
  have hall := h.all
  rw [List.all_cons, Bool.and_eq_true] at hall
  exact ⟨c, u, rfl, hall.1⟩

theorem IsDigits.startsWith {t : Text} (h : IsDigits t) (rest : Text) :
    Text.startsWith Char.isDigit (t ++ rest) = true :=
  Text.startsWith_append (Text.startsWith_of_all h.all h.ne_nil) rest

theorem value_append (s t : Text) : value (s ++ t) = tenTo t.length * value s + value t := by
  unfold value
  rw [Nat.ofDigitChars_append, Nat.ofDigitChars_eq_ofDigitChars_zero]
  rfl

theorem value_zeros (n : Nat) : value (List.replicate n '0') = 0 := by
  unfold value
  rw [Nat.ofDigitChars_replicate_zero, Nat.mul_zero]

theorem span_digits {t rest : Text} (ht : t.all Char.isDigit = true) (hrest : Lacks Char.isDigit rest) :
    span (t ++ rest) = (t, rest) := by
  rw [span, Text.takeWhile_append_of_all ht hrest, Text.dropWhile_append_of_all ht hrest]

/-! ## Padding -/

theorem isDigits_padded (width n : Nat) : IsDigits (padded width n) := by
  refine ⟨List.append_ne_nil_of_right_ne_nil _ (isDigits_text n).ne_nil, ?_⟩
  rw [padded, List.all_append, (isDigits_text n).all, Bool.and_true, List.all_replicate]
  exact ite_self true

theorem value_padded (width n : Nat) : value (padded width n) = n := by
  rw [padded, value_append, value_zeros, value_text, Nat.mul_zero, Nat.zero_add]

/-- A number that fits in the width is padded to it. -/
theorem length_padded {width n : Nat} (hwidth : 0 < width) (h : n < tenTo width) : (padded width n).length = width := by
  have hlength : (text n).length ≤ width := (Nat.length_toDigits_le_iff (by decide) hwidth).2 h
  rw [padded, List.length_append, List.length_replicate, Nat.sub_add_cancel hlength]

/-! ## Signs -/

/-- The sign in front of a number, nothing when it is not negative. -/
def signText (negative : Bool) : Text := if negative then ['-'] else []

theorem intText_eq (n : Int) : intText n = signText (decide (n < 0)) ++ text n.natAbs := by
  cases n with
  | ofNat n =>
    have hn : ¬ Int.ofNat n < 0 := Int.not_lt.2 (Int.natCast_nonneg n)
    rw [decide_eq_false hn]
    rfl
  | negSucc n =>
    rw [decide_eq_true (Int.negSucc_lt_zero n)]
    rfl

/-- A number starts with its sign or a digit. -/
theorem startsWith_sign (negative : Bool) {t : Text} (h : Text.startsWith Char.isDigit t = true) :
    Text.startsWith (fun c => c == '-' || c.isDigit) (signText negative ++ t) = true := by
  cases negative with
  | true => rfl
  | false => exact Text.startsWith_imp h fun c hc => by rw [hc, Bool.or_true]

theorem again_sign (negative : Bool) : (optional (char '-')).Again (Lacks (· == '-')) (signText negative)
    (if negative then some () else none) := by
  cases negative with
  | true => exact (again_char '-' _).optional
  | false => exact again_optional_none fun _ h => char_refused h

theorem takes_sign : (optional (char '-')).Takes fun t sign => t = signText sign.isSome :=
  ((takes_char '-').imp fun ht => ht).optional rfl

end Decimal
end SeriesCache
