import SeriesCache.Time.Calendar
/-!
# Days and dates

A day of an era of four hundred years is a number of whole centuries, spans of four years, years and days
(`Date.IsSplit`), and the last day of a leap year is the one that is left over.  So a day number is a March year and a day
of it (`Date.exists_march`); from these come the month and the day of the month, and the day number back from them.  Every
day has a date of the calendar, and is the day of that date (`Date.isValid_ofDayNumber`, `Date.dayNumber_ofDayNumber`).
-/
namespace SeriesCache.Date

/-! ## Eras -/

/-- A day of an era: whole centuries, spans of four years, years and days.  Only the last year of a span has a last day,
and the last span of a century only at the end of the era. -/
structure IsSplit (dayOfEra century span year day : Int) : Prop where
  sum : dayOfEra = 36524 * century + 1461 * span + 365 * year + day
  centuries : 0 ≤ century ∧ century ≤ 3
  spans : 0 ≤ span ∧ span ≤ 24
  years : 0 ≤ year ∧ year ≤ 3
  days : 0 ≤ day ∧ day ≤ 365
  leap : day = 365 → year = 3 ∧ (span = 24 → century = 3)

theorem exists_isSplit {dayOfEra : Int} (hlow : 0 ≤ dayOfEra) (hhigh : dayOfEra < daysPerEra) :
    ∃ century span year day, IsSplit dayOfEra century span year day := by
  rw [daysPerEra] at hhigh
  obtain ⟨century, hcentury, hrest, hlast⟩ : ∃ century : Int, (0 ≤ century ∧ century ≤ 3) ∧
      (0 ≤ dayOfEra - 36524 * century ∧ dayOfEra - 36524 * century ≤ 36524) ∧
      (dayOfEra - 36524 * century = 36524 → century = 3) := ⟨min (dayOfEra / 36524) 3, by omega⟩
  obtain ⟨span, hspan, hdays, hend⟩ : ∃ span : Int, (0 ≤ span ∧ span ≤ 24) ∧
      (0 ≤ dayOfEra - 36524 * century - 1461 * span ∧ dayOfEra - 36524 * century - 1461 * span ≤ 1460) ∧
      (dayOfEra - 36524 * century - 1461 * span = 1460 → span = 24 → century = 3) :=
    ⟨(dayOfEra - 36524 * century) / 1461, by omega⟩
  obtain ⟨year, hyear, hday, hleap⟩ : ∃ year : Int, (0 ≤ year ∧ year ≤ 3) ∧
      (0 ≤ dayOfEra - 36524 * century - 1461 * span - 365 * year ∧
        dayOfEra - 36524 * century - 1461 * span - 365 * year ≤ 365) ∧
      (dayOfEra - 36524 * century - 1461 * span - 365 * year = 365 → year = 3) :=
    ⟨min ((dayOfEra - 36524 * century - 1461 * span) / 365) 3, by omega⟩
  exact ⟨century, span, year, dayOfEra - 36524 * century - 1461 * span - 365 * year, by omega, hcentury, hspan, hyear,
    hday, fun h => ⟨hleap h, by have := hleap h; omega⟩⟩

namespace IsSplit

variable {dayOfEra century span year day : Int}

theorem yearOfEra (h : IsSplit dayOfEra century span year day) :
    (dayOfEra - dayOfEra / 1460 + dayOfEra / 36524 - dayOfEra / 146096) / 365 = 100 * century + 4 * span + year := by
  obtain ⟨hsum, hcentury, hspan, hyear, hday, hleap⟩ := h
  have hrest : 1461 * span + 365 * year + day ≤ 36524 ∧ (1461 * span + 365 * year + day = 36524 → century = 3) := by omega
  have hcenturies : dayOfEra / 36524 - dayOfEra / 146096 = century := by
    obtain rfl | rfl | rfl | rfl : century = 0 ∨ century = 1 ∨ century = 2 ∨ century = 3 := by omega
    all_goals omega
  have hspans : dayOfEra / 1460 = 25 * century + span +
      if 1460 ≤ 24 * century + span + 365 * year + day then 1 else 0 := by split <;> omega
  rw [hspans]
  split <;> omega

theorem dayOfEra_eq (h : IsSplit dayOfEra century span year day) : dayOfEra =
    365 * (100 * century + 4 * span + year) + (100 * century + 4 * span + year) / 4 -
      (100 * century + 4 * span + year) / 100 + day := by
  obtain ⟨hsum, hcentury, hspan, hyear, -, -⟩ := h
  have hfours : (100 * century + 4 * span + year) / 4 = 25 * century + span := by omega
  have hcenturies : (100 * century + 4 * span + year) / 100 = century := by omega
  omega

theorem isLeap (h : IsSplit dayOfEra century span year day) (hday : day = 365) (era : Int) :
    Date.isLeap (era * 400 + (100 * century + 4 * span + year) + 1) = true := by
  obtain ⟨-, hcentury, hspan, -, -, hleap⟩ := h
  obtain ⟨rfl, hlast⟩ := hleap hday
  rw [Date.isLeap, Bool.and_eq_true, Bool.or_eq_true, beq_iff_eq, bne_iff_ne, beq_iff_eq]
  omega

end IsSplit

/-! ## March years -/

/-- The days from the start of era 0 to the first of March of a year. -/
def daysBefore (year : Int) : Int :=
  year / 400 * daysPerEra + (year % 400 * 365 + year % 400 / 4 - year % 400 / 100)

/-- A day of the year from the first of March, where the last one is a leap day. -/
structure IsMarchDay (year day : Int) : Prop where
  bounds : 0 ≤ day ∧ day ≤ 365
  leap : day = 365 → isLeap (year + 1) = true

/-- The date of a day of a March year. -/
def ofMarch (year day : Int) : Date :=
  let month := (5 * day + 2) / 153
  { year := if month < 10 then year else year + 1
    month := (if month < 10 then month + 3 else month - 9).toNat
    day := (day - (153 * month + 2) / 5 + 1).toNat }

/-- **A day number is a day of a March year.** -/
theorem exists_march (n : Int) : ∃ year day, ofDayNumber n = ofMarch year day ∧ IsMarchDay year day ∧
    n = daysBefore year + day - epochOffset ∧ year / 400 = (n + epochOffset) / daysPerEra := by
  have hlow : 0 ≤ (n + epochOffset) % daysPerEra := Int.emod_nonneg _ (by decide)
  have hhigh : (n + epochOffset) % daysPerEra < daysPerEra := Int.emod_lt_of_pos _ (by decide)
  have hsum := Int.mul_ediv_add_emod (n + epochOffset) daysPerEra
  obtain ⟨century, span, year, day, h⟩ := exists_isSplit hlow hhigh
  have hbounds : 0 ≤ 100 * century + 4 * span + year ∧ 100 * century + 4 * span + year < 400 := by
    have hcenturies := h.centuries
    have hspans := h.spans
    have hyears := h.years
    omega
  have hyear := h.yearOfEra
  have hdayOfEra := h.dayOfEra_eq
  have hleap := h.isLeap
  generalize 100 * century + 4 * span + year = yearOfEra at hbounds hyear hdayOfEra hleap
  generalize hera : (n + epochOffset) / daysPerEra = era at hsum
  have hcount : (era * 400 + yearOfEra) / 400 = era ∧ (era * 400 + yearOfEra) % 400 = yearOfEra := by omega
  refine ⟨era * 400 + yearOfEra, day, ?_, ⟨h.days, fun hday => hleap hday era⟩, ?_, hcount.1⟩
  · have hday : (n + epochOffset) % daysPerEra - (365 * yearOfEra + yearOfEra / 4 - yearOfEra / 100) = day := by omega
    unfold ofDayNumber ofMarch
    simp only [hyear, hday, hera]
  · rw [daysBefore, hcount.1, hcount.2, Int.mul_comm era, Int.mul_comm yearOfEra]
    omega

section

variable {year day : Int}

/-- The month from March, and the day of it. -/
theorem IsMarchDay.month_bounds (h : IsMarchDay year day) : (0 ≤ (5 * day + 2) / 153 ∧ (5 * day + 2) / 153 ≤ 11) ∧
    1 ≤ day - (153 * ((5 * day + 2) / 153) + 2) / 5 + 1 := by
  have hday := h.bounds
  omega

/-- The day of a date comes from its March year. -/
theorem dayNumber_ofMarch (h : IsMarchDay year day) :
    (ofMarch year day).dayNumber = daysBefore year + day - epochOffset := by
  obtain ⟨hmonth, hday⟩ := h.month_bounds
  unfold dayNumber ofMarch daysBefore
  generalize (5 * day + 2) / 153 = month at hmonth hday
  by_cases hspring : month < 10
  · have hcount : ¬ (month + 3).toNat ≤ 2 ∧ ((month + 3).toNat : Int) - 3 = month := by omega
    simp only [if_pos hspring, if_neg hcount.1, hcount.2]
    omega
  · have hcount : (month - 9).toNat ≤ 2 ∧ ((month - 9).toNat : Int) + 9 = month := by omega
    simp only [if_neg hspring, if_pos hcount.1, hcount.2, Int.add_sub_cancel]
    omega

/-- The last day of a month, counted from March; the last month is as long as the year says. -/
theorem IsMarchDay.day_le (h : IsMarchDay year day) {month : Int} (hmonth : (5 * day + 2) / 153 = month) :
    day - (153 * month + 2) / 5 + 1 ≤ daysInMonth (if month < 10 then year else year + 1)
      (if month < 10 then month + 3 else month - 9).toNat := by
  obtain ⟨hbounds, hleap⟩ := h
  obtain rfl | rfl | hshort | hlong : month = 11 ∨ month = 10 ∨ (month = 1 ∨ month = 3 ∨ month = 6 ∨ month = 8) ∨
      (month = 0 ∨ month = 2 ∨ month = 4 ∨ month = 5 ∨ month = 7 ∨ month = 9) := by omega
  · show _ ≤ ((if isLeap (year + 1) then 29 else 28 : Nat) : Int)
    by_cases hlast : day = 365
    · rw [if_pos (hleap hlast)]
      omega
    · split <;> omega
  · show _ ≤ ((31 : Nat) : Int)
    omega
  · have hdays : daysInMonth (if month < 10 then year else year + 1)
        (if month < 10 then month + 3 else month - 9).toNat = 30 := by
      rcases hshort with rfl | rfl | rfl | rfl <;> rfl
    omega
  · have hdays : daysInMonth (if month < 10 then year else year + 1)
        (if month < 10 then month + 3 else month - 9).toNat = 31 := by
      rcases hlong with rfl | rfl | rfl | rfl | rfl | rfl <;> rfl
    omega

theorem isValid_ofMarch (h : IsMarchDay year day) : (ofMarch year day).isValid = true := by
  obtain ⟨hmonth, hday⟩ := h.month_bounds
  have hend := h.day_le rfl
  unfold isValid ofMarch
  generalize (5 * day + 2) / 153 = month at hmonth hday hend
  simp only [Bool.and_eq_true, decide_eq_true_eq]
  refine ⟨⟨⟨?_, ?_⟩, ?_⟩, ?_⟩
  · split <;> omega
  · split <;> omega
  · omega
  · omega

end

theorem daysInMonth_le (year : Int) (month : Nat) : daysInMonth year month ≤ 31 := by
  unfold daysInMonth
  split
  case h_1 => split <;> decide
  all_goals decide

/-- **Every day has a date of the calendar.** -/
theorem isValid_ofDayNumber (n : Int) : (ofDayNumber n).isValid = true := by
  obtain ⟨year, day, hdate, hday, -, -⟩ := exists_march n
  rw [hdate]
  exact isValid_ofMarch hday

/-- **A day is the day of its date.** -/
theorem dayNumber_ofDayNumber (n : Int) : (ofDayNumber n).dayNumber = n := by
  obtain ⟨year, day, hdate, hday, hn, -⟩ := exists_march n
  rw [hdate, dayNumber_ofMarch hday, ← hn]

/-- The year of a day is one of the era that the day is in, or the first of the next one. -/
theorem year_ofDayNumber_bounds (n : Int) : (n + epochOffset) / daysPerEra * 400 ≤ (ofDayNumber n).year ∧
    (ofDayNumber n).year ≤ (n + epochOffset) / daysPerEra * 400 + 400 := by
  obtain ⟨year, day, hdate, -, -, hera⟩ := exists_march n
  rw [hdate, ← hera]
  unfold ofMarch
  dsimp only
  split <;> omega

end SeriesCache.Date
