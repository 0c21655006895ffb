import SeriesCache.Proofs.Query.Again.Literal
/-!
# Reading printed numbers

A sign, digits, and digits behind a point are read as the number with those parts (`Numeric.again_spelling`).  So an
integer is read again from its digits, and a run of digits beyond 64 bits is no number.
-/
namespace SeriesCache

open Reader
open Text (Lacks)

variable {whole rest : Text} {places : Option Text} {negative : Bool}

open Decimal (IsDigits signText again_sign)

/-! ## Spellings -/

namespace Numeric

/-- The digits behind the point, with the point. -/
def placesText : Option Text → Text
  | none => []
  | some ds => '.' :: ds

theorem again_places (h : ∀ ds ∈ places, IsDigits ds) :
    (optional fraction).Again (Lacks fun c => c.isDigit || c == '.') (placesText places) places := by
  cases places with
  | none => exact again_noFraction
  | some ds =>
    have hdigits := h ds rfl
    have hfraction : fraction.Again (Lacks Char.isDigit) ('.' :: ds) ds :=
      (again_char '.' fun _ => True).bind (again_digits hdigits.all hdigits.ne_nil) fun _ _ => trivial
    exact hfraction.optional.mono fun _ hrest => hrest.imp fun c hc => by rw [hc]; rfl

/-- **A printed number is read as the number with its parts.** -/
theorem again_spelling (negative : Bool) (places : Option Text) (hwhole : IsDigits whole) (hplaces : ∀ ds ∈ places, IsDigits ds) :
    spelling.Again (Lacks Text.goesOn) (signText negative ++ (whole ++ placesText places))
      ⟨negative, whole, places, none⟩ := by
  have hsome : (if negative then some () else none : Option Unit).isSome = negative := by cases negative <;> rfl
  have hafter (sign : Option Unit) : (do
      let whole ← digits
      let fraction ← optional fraction
      let exponent ← optional exponent
      return ⟨sign.isSome, whole, fraction, exponent⟩ : Reader Spelling).Again (Lacks Text.goesOn)
        (whole ++ (placesText places ++ ([] ++ []))) ⟨sign.isSome, whole, places, none⟩ := by
    refine (again_digits hwhole.all hwhole.ne_nil).bind ((again_places hplaces).bind
      (again_noExponent.bind (again_pure _ _) fun _ h => h) fun rest hrest => ?_) fun rest hrest => ?_
    · exact hrest.of_goesOn (by decide)
    · cases places with
      | none => exact hrest.of_goesOn (by decide)
      | some ds => rfl
  have hread : spelling.Again (Lacks Text.goesOn) (signText negative ++ (whole ++ (placesText places ++ ([] ++ []))))
      ⟨(if negative then some () else none : Option Unit).isSome, whole, places, none⟩ :=
    (again_sign negative).bind (hafter _) fun rest _ => by
      rw [List.append_assoc]
      exact Text.lacks_of_digit (by decide) (hwhole.startsWith _)
  rwa [hsome, List.append_nil, List.append_nil] at hread

/-- Digits within 64 bits are read as an integer. -/
theorem again_integer {n : Int64} (hwhole : IsDigits whole)
    (hvalue : (if negative then -(Decimal.value whole : Int) else Decimal.value whole) = n.toInt) :
    reader.Again (Lacks Text.goesOn) (signText negative ++ whole) (.integer n) := by
  have hspelling := again_spelling negative none hwhole (fun _ h => by cases h)
  have hread : Spelling.value? ⟨negative, whole, none, none⟩ = some (.integer n) := by
    simp only [Spelling.value?, hvalue, Signed.ofInt?_toInt, Option.map_some]
  have hagain := hspelling.convert hread .numberRange
  rwa [placesText, List.append_nil] at hagain

/-- Digits beyond 64 bits are no number. -/
theorem reader_large (negative : Bool) (hwhole : IsDigits whole) (hlarge : 0x8000000000000000 < Decimal.value whole)
    (hrest : Lacks Text.goesOn rest) : ∃ r, reader (signText negative ++ (whole ++ rest)) = .failed .numberRange r := by
  have hspelling := again_spelling negative none hwhole (fun _ h => by cases h) rest hrest
  have hread : Spelling.value? ⟨negative, whole, none, none⟩ = none := by
    have hrange : Signed.ofInt? (if negative then -(Decimal.value whole : Int) else Decimal.value whole) = none :=
      if_neg (by split <;> omega)
    simp only [Spelling.value?, hrange, Option.map_none]
  refine ⟨signText negative ++ (whole ++ rest), ?_⟩
  rw [placesText, List.append_nil, List.append_assoc] at hspelling
  rw [reader, convert, hspelling]
  simp only [hread]

/-- Digits with places are read as the float nearest to them. -/
theorem again_float (negative : Bool) {ds : Text} (hwhole : IsDigits whole) (hplaces : IsDigits ds) :
    reader.Again (Lacks Text.goesOn) (signText negative ++ (whole ++ '.' :: ds))
      (.float (Binary64.ofDecimal negative (Decimal.value (whole ++ ds)) (-ds.length))) := by
  have hspelling := again_spelling negative (some ds) hwhole (fun _ h => by cases h; exact hplaces)
  refine hspelling.convert ?_ .numberRange
  simp only [Spelling.value?, Option.getD_some, Option.getD_none, Int.zero_sub]

end Numeric

/-! ## Integers -/

namespace Signed

/-- A printed integer is digits behind its sign. -/
theorem text_eq (n : Int64) : text n = signText (decide (n.toInt < 0)) ++ Decimal.text n.toInt.natAbs :=
  Decimal.intText_eq n.toInt

end Signed

/-- What starts with a sign or a digit. -/
theorem Text.lacks_of_sign {p : Char → Bool} {t : Text} (hsign : p '-' = false)
    (hdigit : ∀ n : Fin 10, p (Char.ofNat (48 + n)) = false) (h : startsWith (fun c => c == '-' || c.isDigit) t = true) :
    t ≠ [] ∧ Lacks p t := by
  refine ⟨?_, lacks_of_startsWith h fun c hc => ?_⟩
  · rintro rfl
    cases h
  · rcases Bool.or_eq_true_iff.1 hc with hc | hc
    · rw [beq_iff_eq.1 hc, hsign]
    · exact forall_digit (P := fun c => p c = false) hdigit hc

theorem Signed.text_start (n : Int64) : text n ≠ [] ∧ Lacks Text.isBlank (text n) := by
  have hdigits := (Decimal.isDigits_text n.toInt.natAbs).startsWith []
  rw [List.append_nil] at hdigits
  rw [text_eq]
  exact Text.lacks_of_sign rfl (by decide) (Decimal.startsWith_sign _ hdigits)

/-- What is read again as a number is read again as a literal: it is no duration. -/
theorem Literal.again_number {t : Text} {n : Numeric} (h : Numeric.reader.Again (Lacks Text.goesOn) t n) :
    reader.Again (Lacks Text.goesOn) t n.toLiteral := by
  obtain ⟨u, hu, -, hshaped⟩ := Numeric.takes_reader_again _ _ _ (h [] rfl)
  rw [List.append_nil, List.append_nil] at hu
  subst hu
  exact again_numeric h hshaped

/-- **A printed integer is read again.** -/
theorem Numeric.again_text (n : Int64) : reader.Again (Lacks Text.goesOn) (Signed.text n) (.integer n) := by
  rw [Signed.text_eq]
  refine again_integer (Decimal.isDigits_text _) ?_
  rw [Decimal.value_text]
  simp only [decide_eq_true_eq]
  split <;> omega

end SeriesCache
