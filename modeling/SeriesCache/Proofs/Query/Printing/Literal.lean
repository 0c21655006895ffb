import SeriesCache.Proofs.Query.Printing
import SeriesCache.Proofs.Query.Printing.Float
/-!
# Reading printed literals

A literal that was read is read again from its printed form (`Literal.takes_isPrinted`), except for an infinite float,
which prints as a word.  A duration prints as one number with one unit, and that is within 64 bits because no duration is
read that has no opposite.
-/
namespace SeriesCache

open Reader
open Text (Lacks)
open Decimal (IsDigits)

/-! ## Durations -/

namespace Duration

/-- A duration is printed as one number with one unit. -/
theorem text_eq (d : Duration) : ∃ (k : Int), ∃ unit ∈ units, d.text = Decimal.intText k ++ unit.1 ∧
    k * unit.2 = d.nanos.toInt := by
  have hunits : ∀ u ∈ printedUnits, u ∈ units := by decide
  unfold text
  split
  · rename_i hzero
    refine ⟨0, ("s".toList, 1000000000), by decide, rfl, ?_⟩
    rw [hzero]
    rfl
  · split
    · rename_i name unit hfind
      have hdvd : (unit : Int) ∣ d.nanos.toInt := by
        have := List.find?_some hfind
        exact Int.dvd_of_emod_eq_zero (by simpa using this)
      exact ⟨_, (name, unit), hunits _ (List.mem_of_find?_eq_some hfind), rfl, Int.tdiv_mul_cancel hdvd⟩
    · exact ⟨d.nanos.toInt, ("ns".toList, 1), by decide, rfl, Int.mul_one _⟩

theorem exists_printed_term (n : Nat) {unit : Text × Nat} (hunit : unit ∈ units) :
    ∃ t : Term, t.text = Decimal.text n ++ unit.1 ∧ t.nanos = n * unit.2 := by
  refine ⟨⟨Decimal.text n, unit, Decimal.isDigits_text n, hunit⟩, rfl, ?_⟩
  rw [Term.nanos, Term.number, Decimal.value_text]

theorem exists_printed (d : Duration) : ∃ w : Spelling, d.text = w.text ∧ w.nanos = d.nanos.toInt := by
  obtain ⟨k, unit, hunit, htext, hk⟩ := text_eq d
  obtain ⟨t, ht, hnanos⟩ := exists_printed_term k.natAbs hunit
  have hsum : (sum [t] : Int) = k.natAbs * unit.2 := by rw [sum, sum, Nat.add_zero, hnanos, Int.natCast_mul]
  refine ⟨⟨decide (k < 0), [t], List.cons_ne_nil _ _⟩, ?_, ?_⟩
  · rw [htext, Decimal.intText_eq, List.append_assoc, Spelling.text, termsText, List.flatMap_singleton, ht]
  · rw [Spelling.nanos, hsum, ← hk]
    rcases Int.lt_or_le k 0 with hneg | hnonneg
    · rw [decide_eq_true hneg, if_pos rfl, ← Int.neg_mul, Int.ofNat_natAbs_of_nonpos (Int.le_of_lt hneg), Int.neg_neg]
    · rw [decide_eq_false (Int.not_lt.2 hnonneg), if_neg Bool.false_ne_true, Int.natAbs_of_nonneg hnonneg]

theorem exists_printed_fits {d : Duration} (h : d.nanos ≠ Int64.minValue) :
    ∃ w : Spelling, d.text = w.text ∧ read? w.text = some d := by
  obtain ⟨w, htext, hnanos⟩ := exists_printed d
  have hlow : d.nanos.toInt ≠ -0x8000000000000000 := fun hmin =>
    h (Int64.toInt_inj.1 (hmin.trans Int64.toInt_minValue.symm))
  have hfits : Fits w.terms := by
    rw [fits_iff, ← w.natAbs_nanos, hnanos]
    have hmin := d.nanos.le_toInt
    have hmax := d.nanos.toInt_lt
    omega
  exact ⟨w, htext, read?_eq_some_iff.2 ⟨w, rfl, hfits, hnanos.symm⟩⟩

/-- **A printed duration is read again**, when it has an opposite, where no word goes on behind it. -/
theorem again_text_word {d : Duration} (h : d.nanos ≠ Int64.minValue) :
    reader.Again (Lacks Text.isWordPart) d.text d := by
  obtain ⟨w, htext, hread⟩ := exists_printed_fits h
  intro rest hrest
  exact reader_eq_found_iff.2 ⟨w, by rw [htext], hrest, hread⟩

theorem again_text {d : Duration} (h : d.nanos ≠ Int64.minValue) : reader.Again (Lacks Text.goesOn) d.text d :=
  (again_text_word h).mono fun _ hrest => hrest.of_goesOn (by decide)

theorem text_start {d : Duration} (h : d.nanos ≠ Int64.minValue) : d.text ≠ [] ∧ Lacks Text.isBlank d.text := by
  obtain ⟨t, ht, -, hstart⟩ := takes_reader_again _ _ _ (again_text h [] rfl)
  rw [List.append_nil, List.append_nil] at ht
  subst ht
  exact Text.lacks_of_sign rfl (by decide) hstart

/-- Every duration that is read has an opposite. -/
theorem takes_opposite : reader.Takes fun _ d => d.nanos ≠ Int64.minValue := by
  intro s d rest hs
  obtain ⟨w, rfl, -, hread⟩ := reader_eq_found_iff.1 hs
  refine ⟨w.text, rfl, fun hmin => ?_⟩
  obtain ⟨v, -, hfits, hnanos⟩ := read?_eq_some_iff.1 hread
  have hsum := fits_iff.1 hfits
  rw [← v.natAbs_nanos, ← hnanos, hmin] at hsum
  exact absurd hsum (by decide)

end Duration

/-! ## All literals -/

/-- An expression that was read is read again from its printed form, whatever follows. -/
theorem Regex.takes_again_text : reader.Takes fun _ r => reader.Again (fun _ => True) (text r) r :=
  (takes_again.and (Scan.takes_regex (w := []))).imp fun ⟨⟨hagain, _⟩, ht, _⟩ => ht ▸ hagain

namespace Literal

/-- Only a float that is finite prints as a number. -/
def isLegible : Literal → Bool
  | float x => x.isFinite
  | _ => true

theorem again_boolean (b : Bool) : reader.Again (Lacks Text.goesOn) (booleanText b) (boolean b) := by
  intro rest hrest
  rw [reader_word (by cases b <;> decide) (by cases b <;> decide) (hrest.of_goesOn (by decide))]
  cases b <;> rfl

theorem again_quoted (t : Text) : (Quoted.reader '\'').Again (fun _ => True) (Quoted.text '\'' t) t :=
  fun rest _ => Quoted.reader_text (by decide) (by decide) t rest

/-- **A literal that was read is read again from its printed form**, when it is legible. -/
theorem takes_legible :
    reader.Takes fun _ l => l.isLegible = true → reader.Again (Lacks Text.goesOn) l.text l := by
  have hduration : Duration.reader.Takes fun _ d => (duration d).isLegible = true →
      reader.Again (Lacks Text.goesOn) (duration d).text (duration d) :=
    Duration.takes_opposite.imp fun h _ => again_duration (Duration.again_text h)
  have hnumeric : Numeric.reader.Takes fun _ n => n.toLiteral.isLegible = true →
      reader.Again (Lacks Text.goesOn) n.toLiteral.text n.toLiteral :=
    Numeric.takes_reader_again.imp fun {_ n} _ h => again_number (match n, h with
      | .integer n, _ => Numeric.again_text n
      | .float _, h => Numeric.again_floatText h)
  have hstring : (Quoted.reader '\'').Takes fun _ u => (string u).isLegible = true →
      reader.Again (Lacks Text.goesOn) (string u).text (string u) :=
    (Quoted.takes_again (by decide)).imp fun {_ u} _ _ => again_string (again_quoted u) rfl
  have hregex : Regex.reader.Takes fun _ r => (regex r).isLegible = true →
      reader.Again (Lacks Text.goesOn) (regex r).text (regex r) :=
    Regex.takes_again_text.imp fun h _ => again_regex h rfl
  have hboolean : booleanReader.Takes fun _ b => (boolean b).isLegible = true →
      reader.Again (Lacks Text.goesOn) (boolean b).text (boolean b) := fun s b rest hs => by
    obtain ⟨t, ht, -⟩ := takes_boolean_again s (boolean b) rest (map_found hs)
    exact ⟨t, ht, fun _ => again_boolean b⟩
  exact .orElse (.map hduration) (.orElse (.map hnumeric) (.orElse (.map hstring) (.orElse (.map hregex) (.map hboolean))))

theorem floatText_of_not_finite {x : Binary64} (h : x.isFinite = false) : floatText x = Layout.plain.text x := by
  unfold floatText
  rw [h, Bool.false_and]
  exact if_neg Bool.false_ne_true

/-- **No literal is read from its printed form that is not legible.** -/
theorem reader_illegible {l : Literal} {rest r : Text} (h : l.isLegible = false) (hrest : Lacks Text.goesOn rest) :
    reader (l.text ++ rest) ≠ .found l r := by
  cases l with
  | float x =>
    have hfinite : x.isFinite = false := h
    have hword {t : Text} (hstart : Text.startsWith Text.isWordStart t = true) (ht : t.all Text.isWordPart = true)
        (htruth : (Text.sameWord "TRUE".toList t || Text.sameWord "FALSE".toList t) = false) :
        reader (t ++ rest) = .refused := by
      obtain ⟨htrue, hfalse⟩ := Bool.or_eq_false_iff.1 htruth
      rw [reader_word hstart ht (hrest.of_goesOn (by decide)), htrue, hfalse]
      rfl
    have hrefused : reader (floatText x ++ rest) = .refused := by
      rw [floatText_of_not_finite hfinite]
      rcases Layout.plain_text_of_not_finite hfinite with h | h | h <;> rw [h]
      · exact hword (by decide) (by decide) (by decide)
      · exact hword (by decide) (by decide) (by decide)
      · rfl
    intro hfound
    cases hrefused.symm.trans hfound
  | _ => cases h

/-- The printed form starts an item, and is read again exactly when it is legible. -/
structure IsPrinted (l : Literal) : Prop where
  ne_nil : l.text ≠ []
  lacks_blank : Lacks Text.isBlank l.text
  prints : reader.Prints (Lacks Text.goesOn) l.text l (l.isLegible = true)

theorem text_start_of_illegible {l : Literal} (h : l.isLegible = false) : l.text ≠ [] ∧ Lacks Text.isBlank l.text := by
  cases l with
  | float x =>
    show floatText x ≠ [] ∧ Lacks Text.isBlank (floatText x)
    rw [floatText_of_not_finite h]
    exact Layout.plain_text_start x
  | _ => cases h

theorem takes_isPrinted : reader.Takes fun _ l => l.IsPrinted := by
  refine takes_legible.imp fun {_ l} hagain => ?_
  have honly (rest r : Text) (hrest : Lacks Text.goesOn rest) (hfound : reader (l.text ++ rest) = .found l r) :
      l.isLegible = true := by
    by_contra h
    exact reader_illegible (Bool.eq_false_iff.2 h) hrest hfound
  cases hlegible : l.isLegible with
  | true =>
    obtain ⟨t, ht, -, hbegins⟩ := takes_again _ l [] (hagain hlegible [] rfl)
    rw [List.append_nil, List.append_nil] at ht
    subst ht
    exact ⟨hbegins.solo.ne_nil, hbegins.solo.lacks_white.imp fun _ => Text.isWhite_of_isBlank, hagain, honly⟩
  | false =>
    obtain ⟨hne, hblank⟩ := text_start_of_illegible hlegible
    exact ⟨hne, hblank, hagain, honly⟩

end Literal
end SeriesCache
