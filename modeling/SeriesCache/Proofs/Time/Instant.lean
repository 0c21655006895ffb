import SeriesCache.Time.Instant
import SeriesCache.Proofs.Number.Decimal
import SeriesCache.Proofs.Time.Calendar
/-!
# Reading printed instants

An instant is a day and a time of that day (`Instant.of?_clockOf`).  Each of its printed fields is as wide as the field
that is read, and the places of a second are one of three widths (`Instant.fraction?_text`).  So a printed instant is
read as a date and a time with an offset, and as the instant that was printed (`Instant.withOffset?_text`); it is no
integer, because of the hyphens (`Instant.signed_text`).
-/
namespace SeriesCache.Instant

open Text (Lacks)
open Decimal (padded tenTo isDigits_padded length_padded value_padded)

/-! ## Fields -/

theorem digitsUpTo_append {t : Text} (ht : t.all Char.isDigit = true) (more : Nat) (rest : Text) :
    digitsUpTo (t.length + more) (t ++ rest) = (t ++ (digitsUpTo more rest).1, (digitsUpTo more rest).2) := by
  induction t with
  | nil => rw [List.length_nil, Nat.zero_add, List.nil_append, List.nil_append]
  | cons c t ih =>
    rw [List.all_cons, Bool.and_eq_true] at ht
    obtain ⟨hc, ht⟩ := ht
    rw [List.length_cons, Nat.add_right_comm, List.cons_append, digitsUpTo, if_pos hc, ih ht]
    rfl

theorem digitsUpTo_of_lacks {rest : Text} (h : Lacks Char.isDigit rest) (more : Nat) :
    digitsUpTo more rest = ([], rest) := by
  cases more with
  | zero => cases rest <;> rfl
  | succ more =>
    cases rest with
    | nil => rfl
    | cons c rest => rw [digitsUpTo, if_neg (by rw [show c.isDigit = false from h]; exact Bool.false_ne_true)]

/-- A padded number fills its field, whatever follows. -/
theorem field?_padded {width n : Nat} (hwidth : 0 < width) (h : n < tenTo width) (rest : Text) :
    field? width width (padded width n ++ rest) = some (n, rest) := by
  have hdigits := digitsUpTo_append (isDigits_padded width n).all 0 rest
  rw [length_padded hwidth h, Nat.add_zero, show digitsUpTo 0 rest = ([], rest) by cases rest <;> rfl,
    List.append_nil] at hdigits
  rw [field?, hdigits]
  simp only [length_padded hwidth h, Nat.lt_irrefl, if_false, value_padded]

theorem char?_cons (c : Char) (rest : Text) : char? c (c :: rest) = some rest := if_pos rfl

/-- Up to nine places of a second are read as the nanoseconds that they are. -/
theorem fraction?_padded {width n : Nat} (hwidth : 0 < width) (hnine : width ≤ 9) (h : n < tenTo width) {rest : Text}
    (hrest : Lacks Char.isDigit rest) :
    fraction? ('.' :: padded width n ++ rest) = some (n * tenTo (9 - width), rest) := by
  have hdigits := digitsUpTo_append (isDigits_padded width n).all (9 - width) rest
  rw [length_padded hwidth h, Nat.add_sub_cancel' hnine, digitsUpTo_of_lacks hrest, List.append_nil] at hdigits
  rw [List.cons_append, fraction?, hdigits]
  simp only [(isDigits_padded width n).ne_nil, if_false, value_padded, length_padded hwidth h,
    Text.dropWhile_of_startsWith hrest]

/-- **The shortest exact fraction is exact.** -/
theorem fraction?_text {nanos : Nat} (h : nanos < 1000000000) {rest : Text} (hdigit : Lacks Char.isDigit rest)
    (hpoint : Lacks (· == '.') rest) : fraction? (fractionText nanos ++ rest) = some (nanos, rest) := by
  unfold fractionText
  split
  · rename_i hzero
    subst hzero
    cases rest with
    | nil => rfl
    | cons c rest => exact fraction?.eq_2 _ fun s hs => by cases hs; cases hpoint
  · split
    · rename_i hmillis
      rw [fraction?_padded (by decide) (by decide) (show nanos / 1000000 < 1000 by omega) hdigit,
        show nanos / 1000000 * tenTo (9 - 3) = nanos from Nat.div_mul_cancel (Nat.dvd_of_mod_eq_zero hmillis)]
    · split
      · rename_i hmicros
        rw [fraction?_padded (by decide) (by decide) (show nanos / 1000 < 1000000 by omega) hdigit,
          show nanos / 1000 * tenTo (9 - 6) = nanos from Nat.div_mul_cancel (Nat.dvd_of_mod_eq_zero hmicros)]
      · rw [fraction?_padded (by decide) (by decide) h hdigit]
        exact congrArg (fun n => some (n, rest)) (Nat.mul_one nanos)

/-! ## Dates and times of day -/

def dateText (d : Date) : Text :=
  padded 4 d.year.toNat ++ '-' :: padded 2 d.month ++ '-' :: padded 2 d.day

def clockText (c : Clock) : Text :=
  padded 2 c.hour ++ ':' :: padded 2 c.minute ++ ':' :: padded 2 c.second ++ fractionText c.nanos

theorem strictDate?_text {d : Date} (hlow : 0 ≤ d.year) (hhigh : d.year < 10000) (hvalid : d.isValid = true)
    (rest : Text) : strictDate? (dateText d ++ rest) = some (d, rest) := by
  obtain ⟨⟨⟨-, hmonth⟩, -⟩, hday⟩ : ((1 ≤ d.month ∧ d.month ≤ 12) ∧ 1 ≤ d.day) ∧
      d.day ≤ Date.daysInMonth d.year d.month := by
    simpa only [Date.isValid, Bool.and_eq_true, decide_eq_true_eq] using hvalid
  have hdays := Date.daysInMonth_le d.year d.month
  rw [dateText, strictDate?]
  simp only [List.append_assoc, List.cons_append, field?_padded (by decide : 0 < 4) (show d.year.toNat < 10000 by omega),
    field?_padded (by decide : 0 < 2) (show d.month < 100 by omega),
    field?_padded (by decide : 0 < 2) (show d.day < 100 by omega), char?_cons, Option.bind_eq_bind, Option.bind_some,
    Int.toNat_of_nonneg hlow]
  rfl

theorem strictClock?_text {c : Clock} (hvalid : c.isValid = true) (hnanos : c.nanos < 1000000000) {rest : Text}
    (hdigit : Lacks Char.isDigit rest) (hpoint : Lacks (· == '.') rest) :
    strictClock? (clockText c ++ rest) = some (c, rest) := by
  obtain ⟨⟨hhour, hminute⟩, hsecond⟩ : (c.hour ≤ 23 ∧ c.minute ≤ 59) ∧ c.second ≤ 60 := by
    simpa only [Clock.isValid, Bool.and_eq_true, decide_eq_true_eq] using hvalid
  rw [clockText, strictClock?]
  simp only [List.append_assoc, List.cons_append, field?_padded (by decide : 0 < 2) (show c.hour < 100 by omega),
    field?_padded (by decide : 0 < 2) (show c.minute < 100 by omega),
    field?_padded (by decide : 0 < 2) (show c.second < 100 by omega), char?_cons, fraction?_text hnanos hdigit hpoint,
    Option.bind_eq_bind, Option.bind_some]
  rfl

/-! ## The day and the time of an instant -/

/-- The day of an instant, counted from 1970-01-01. -/
def dayOf (n : Int64) : Int := n.toInt / 1000000000 / 86400

def clockOf (n : Int64) : Clock :=
  let second := (n.toInt / 1000000000 % 86400).toNat
  ⟨second / 3600, second / 60 % 60, second % 60, (n.toInt % 1000000000).toNat⟩

theorem text_eq (n : Int64) : text n = dateText (.ofDayNumber (dayOf n)) ++ 'T' :: clockText (clockOf n) ++ ['Z'] := by
  unfold text dateText clockText clockOf dayOf
  simp only [List.append_assoc, List.cons_append]

theorem isValid_clockOf (n : Int64) : (clockOf n).isValid = true ∧ (clockOf n).nanos < 1000000000 := by
  unfold clockOf Clock.isValid
  simp only [Bool.and_eq_true, decide_eq_true_eq]
  omega

/-- The days of 64 bits of nanoseconds are those of the years 1600 to 2400. -/
theorem year_dayOf (n : Int64) : 1600 ≤ (Date.ofDayNumber (dayOf n)).year ∧ (Date.ofDayNumber (dayOf n)).year ≤ 2400 := by
  obtain ⟨hlow, hhigh⟩ := Date.year_ofDayNumber_bounds (dayOf n)
  have hera : 4 ≤ (dayOf n + Date.epochOffset) / Date.daysPerEra ∧ (dayOf n + Date.epochOffset) / Date.daysPerEra ≤ 5 := by
    have hleast := n.le_toInt
    have hmost := n.toInt_lt
    unfold dayOf Date.epochOffset Date.daysPerEra
    omega
  omega

/-- An instant is the time of its day. -/
theorem of?_clockOf (n : Int64) : of? (.ofDayNumber (dayOf n)) (clockOf n) 0 = some n := by
  rw [of?, if_pos (by rw [Date.isValid_ofDayNumber, (isValid_clockOf n).1]; rfl), Signed.ofInt?_eq_some_iff,
    Date.dayNumber_ofDayNumber]
  unfold dayOf clockOf
  dsimp only
  omega

/-! ## Reading -/

theorem withOffset?_text (n : Int64) : withOffset? (text n) = some n := by
  obtain ⟨hlow, hhigh⟩ := year_dayOf n
  obtain ⟨hclock, hnanos⟩ := isValid_clockOf n
  rw [text_eq, withOffset?, List.append_assoc, strictDate?_text (by omega) (by omega) (Date.isValid_ofDayNumber _)]
  simp only [List.cons_append, Option.bind_eq_bind, Option.bind_some,
    strictClock?_text hclock hnanos (show Lacks Char.isDigit ['Z'] from rfl) rfl, offset?, if_true]
  exact of?_clockOf n

theorem startsWith_text (n : Int64) : Text.startsWith Char.isDigit (text n) = true := by
  rw [text_eq, dateText]
  simp only [List.append_assoc]
  exact (isDigits_padded 4 _).startsWith _

/-- No integer has a hyphen behind its digits. -/
theorem signed_text (n : Int64) : Signed.read? (text n) = none := by
  have hdigits : (text n).all Char.isDigit = false := List.all_eq_false.2 ⟨'-', by simp [text_eq, dateText], by decide⟩
  have hnat : Decimal.nat? (text n) = none := if_neg fun h => by rw [hdigits] at h; cases h.2
  have hstart := startsWith_text n
  rw [Signed.read?]
  suffices hint : Decimal.int? (text n) = none by rw [hint]; rfl
  cases htext : text n with
  | nil => rw [htext] at hstart; cases hstart
  | cons c t =>
    rw [htext] at hstart hnat
    rw [Decimal.int?.eq_3 _ (fun s hs => by cases hs; cases hstart) (fun s hs => by cases hs; cases hstart), hnat]
    rfl

theorem trim_text (n : Int64) : Text.trim (text n) = text n := by
  have hwhite : Lacks Text.isWhite (text n) := Text.lacks_of_digit (by decide) (startsWith_text n)
  rw [Text.trim, Text.trimStart, Text.dropWhile_of_startsWith hwhite, text_eq]
  exact Text.trimEnd_append (by decide) _

/-- **A printed instant is read as that instant.** -/
theorem read?_text (n : Int64) : read? (text n) = some n := by
  rw [read?, trim_text, signed_text, withOffset?_text]
  rfl

/-- The first instant, with all nine places. -/
example : text Int64.minValue = "1677-09-21T00:12:43.145224192Z".toList := by decide

end SeriesCache.Instant
