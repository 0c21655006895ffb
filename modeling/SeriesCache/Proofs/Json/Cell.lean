import SeriesCache.Proofs.Json.Scanner
import SeriesCache.Proofs.Query.Printing.Number
/-!
# Reading written cells

A written integer has no leading zero and fits 64 bits, so it is read as the integer that it is, in front of whatever may
stand behind a value (`JsonReader.numberFrom_text`).  A cell that is no float is read back at any depth
(`JsonReader.reads_cellText`).
-/
namespace SeriesCache

open Json

/-- A positive number is written without a leading zero. -/
theorem Decimal.head_ne_zero {n : Nat} (h : 0 < n) {c : Char} {ds : Text} (hds : text n = c :: ds) : c ≠ '0' := by
  induction n using Nat.strongRecOn generalizing ds with
  | ind n ih =>
    by_cases hlast : n < 10
    · rw [text, Nat.toDigits_of_lt_base hlast] at hds
      obtain ⟨rfl, -⟩ := List.cons.inj hds
      have hchar := Nat.toNat_digitChar_of_lt_ten hlast
      have hcode : '0'.toNat = 48 := rfl
      intro hzero
      rw [hzero] at hchar
      omega
    · -- the last digit comes off the end, and the first one is that of the tenth part
      obtain ⟨c', ds', hds', -⟩ := (isDigits_text (n / 10)).exists_cons
      have hlead : text n = text (n / 10) ++ [(n % 10).digitChar] :=
        Nat.toDigits_of_base_le (by decide) (Nat.le_of_not_lt hlast)
      rw [hds, hds', List.cons_append] at hlead
      obtain ⟨rfl, -⟩ := List.cons.inj hlead
      exact ih (n / 10) (by omega) (by omega) hds'

namespace JsonReader

variable {rest s : Text} {significand dropped : Nat} {negative : Bool} {c : Char} {x : Number}

/-! ## Numbers -/

/-- All digits of a number that fits 64 bits count. -/
theorem absorb_eq : ∀ {ds : Text} {n : Nat}, Nat.ofDigitChars 10 ds n < 0x10000000000000000 →
    absorb n ds = (Nat.ofDigitChars 10 ds n, ds.length)
  | [], _, _ => rfl
  | c :: ds, n, h => by
    rw [Nat.ofDigitChars_cons, Nat.mul_comm 10 n] at h
    have hnext : n * 10 + (c.toNat - 48) < 0x10000000000000000 := by
      refine Nat.lt_of_le_of_lt ?_ h
      rw [Nat.ofDigitChars_eq_ofDigitChars_zero]
      exact Nat.le_add_right_of_le (Nat.le_mul_of_pos_left _ (Nat.pow_pos (by decide)))
    have hds : absorb (n * 10 + (c.toNat - 48)) ds = _ := absorb_eq h
    rw [absorb, if_pos hnext, hds, Nat.ofDigitChars_cons, Nat.mul_comm 10 n]
    rfl

/-- Neither a fraction nor an exponent closes a value. -/
theorem afterWhole_of_closes (h : Closes rest) (negative : Bool) (significand dropped : Nat) :
    afterWhole negative significand dropped rest = afterWhole.whole negative significand dropped rest := by
  obtain rfl | ⟨c, s, rfl, rfl | rfl | rfl⟩ := h.cases <;> rfl

theorem not_isDigit_of_closes (h : Closes rest) : Text.startsWith Char.isDigit rest = false := by
  obtain rfl | ⟨c, s, rfl, rfl | rfl | rfl⟩ := h.cases <;> rfl

/-- **Digits that fit 64 bits are read as the number that they are.** -/
theorem number_text {n : Nat} (h : n < 0x10000000000000000) (hrest : Closes rest) (negative : Bool) :
    number negative (Decimal.text n ++ rest) = afterWhole.whole negative n 0 rest := by
  have hdigit := not_isDigit_of_closes hrest
  rcases Nat.eq_zero_or_pos n with rfl | hpos
  · -- a number that starts with a zero has no other digit
    rw [← afterWhole_of_closes hrest]
    show (if Text.startsWith Char.isDigit rest then throw JsonFault.badSyntax
      else afterWhole negative 0 0 : JsonReader Number) rest = _
    rw [hdigit]
    rfl
  · obtain ⟨c, ds, hds, hc⟩ := (Decimal.isDigits_text n).exists_cons
    have hzero := Decimal.head_ne_zero hpos hds
    have hall := (Decimal.isDigits_text n).all
    have hdigits : digits (Decimal.text n ++ rest) = .ok (Decimal.text n, rest) := by
      rw [digits, Text.takeWhile_append_of_all hall hdigit, Text.dropWhile_append_of_all hall hdigit]
    have habsorb : absorb 0 (Decimal.text n) = (n, (Decimal.text n).length) := by
      have hvalue : Nat.ofDigitChars 10 (Decimal.text n) 0 = n := Decimal.value_text n
      rw [absorb_eq (by rwa [hvalue]), hvalue]
    rw [number, bind_get, hds, List.cons_append]
    simp only [if_neg hzero, if_pos hc]
    rw [← List.cons_append, ← hds, bind_ok hdigits, habsorb]
    simp only [Nat.sub_self]
    exact afterWhole_of_closes hrest negative n 0

/-- **A written integer is read as that integer.** -/
theorem numberFrom_text (n : Int64) (hrest : Closes rest) : ∃ c u x, Signed.text n ++ rest = c :: u ∧
    (c = '-' ∨ c.isDigit = true) ∧ numberFrom c (c :: u) = .ok (x, rest) ∧ numberCell x = .int64 n := by
  have hlow := n.le_toInt
  have hhigh := n.toInt_lt
  rw [Signed.text_eq]
  by_cases hneg : n.toInt < 0
  · refine ⟨'-', Decimal.text n.toInt.natAbs ++ rest, .negative n.toInt.natAbs, ?_, .inl rfl, ?_, ?_⟩
    · rw [decide_eq_true hneg]
      rfl
    · show number true (Decimal.text n.toInt.natAbs ++ rest) = _
      rw [number_text (by omega) hrest, afterWhole.whole, if_neg (by decide), if_neg (by decide), if_neg (by omega)]
      rfl
    · rw [numberCell, show -(n.toInt.natAbs : Int) = n.toInt by omega, Int64.ofInt_toInt]
  · obtain ⟨c, ds, hds, hc⟩ := (Decimal.isDigits_text n.toInt.natAbs).exists_cons
    have hminus : c ≠ '-' := fun h => by rw [h] at hc; cases hc
    refine ⟨c, ds ++ rest, .natural n.toInt.natAbs, ?_, .inr hc, ?_, ?_⟩
    · rw [decide_eq_false hneg, hds]
      rfl
    · rw [numberFrom, if_neg hminus, ← List.cons_append, ← hds, number_text (by omega) hrest, afterWhole.whole,
        if_neg (by decide), if_pos (by decide)]
      rfl
    · rw [numberCell, if_pos (by omega), ← Int64.ofInt_eq_ofNat, Int.natAbs_of_nonneg (Int.not_lt.1 hneg),
        Int64.ofInt_toInt]

/-! ## Cells -/

theorem valueWith_number (hc : c = '-' ∨ c.isDigit = true) (h : numberFrom c (c :: s) = .ok (x, rest))
    (inner : Option (JsonReader (Option Cell))) : valueWith inner (c :: s) = .ok (some (numberCell x), rest) := by
  have hblank : Text.isBlank c = false := by
    rcases hc with rfl | hc
    · rfl
    · exact Text.forall_digit (P := fun c => Text.isBlank c = false) (by decide) hc
  unfold valueWith
  rw [bind_peek hblank]
  split
  case h_7 =>
    rw [if_pos hc, bind_ok h]
    rfl
  all_goals exact absurd hc (by decide)

theorem valueWith_word {c : Char} {w : Text} {cell : Cell} {inner : Option (JsonReader (Option Cell))}
    (h : ∀ s, valueWith inner (c :: s) = (letters w >>= fun _ => return some cell : JsonReader (Option Cell)) s)
    (rest : Text) : valueWith inner (c :: w ++ rest) = .ok (some cell, rest) :=
  (h (w ++ rest)).trans (bind_ok (letters_append w rest) _)

/-- **A cell that is no float is read back**, whatever may be nested. -/
theorem reads_valueWith {cell : Cell} (hcell : cell.type? ≠ some .float64) (inner : Option (JsonReader (Option Cell))) :
    Reads (valueWith inner) (cellText cell) (some cell) := by
  cases cell with
  | null => exact ⟨rfl, fun rest _ => valueWith_word (c := 'n') (w := "ull".toList) (fun s => rfl) rest⟩
  | bool b =>
    cases b with
    | true => exact ⟨rfl, fun rest _ => valueWith_word (c := 't') (w := "rue".toList) (fun s => rfl) rest⟩
    | false => exact ⟨rfl, fun rest _ => valueWith_word (c := 'f') (w := "alse".toList) (fun s => rfl) rest⟩
  | int64 n =>
    refine ⟨?_, fun rest hrest => ?_⟩
    · have hend : Closes [] := rfl
      obtain ⟨c, u, x, htext, hc, -, -⟩ := numberFrom_text n hend
      rw [List.append_nil] at htext
      rw [cellText, htext]
      rcases hc with rfl | hc
      · rfl
      · exact Text.forall_digit (P := fun c => opens c = true) (by decide) hc
    · obtain ⟨c, u, x, htext, hc, hread, hvalue⟩ := numberFrom_text n hrest
      rw [cellText, htext, valueWith_number hc hread, hvalue]
  | float64 x => exact absurd rfl hcell
  | string s =>
    refine ⟨rfl, fun rest _ => ?_⟩
    rw [cellText, stringText_append]
    show (stringBody true >>= fun t => return some (Cell.string t) : JsonReader (Option Cell))
      (s.flatMap escapeChar ++ '"' :: rest) = _
    rw [bind_ok (stringBody_escaped s rest)]
    rfl

/-- A cell is read back from any depth. -/
theorem reads_cellText {c : Cell} (hcell : c.type? ≠ some .float64) (depth : Nat) :
    Reads (cell depth) (cellText c) c := by
  have hvalue : Reads (value depth) (cellText c) (some c) := by cases depth <;> exact reads_valueWith hcell _
  exact ⟨hvalue.opens, fun rest hrest => bind_ok (hvalue.ok rest hrest) _⟩

end JsonReader
end SeriesCache
