import ForgeSync.Calendar.Date

/-!
# Dates and days

The date of a day names a day of the calendar, and names that one. Years are counted from March on
here: an era has 400 of them, and a year begins so many days after its era.

Main statements: `toDays_ofDays` and `isValid_ofDays`.
-/

namespace ForgeSync.Calendar.Civil

/-- The days of an era before a year. -/
def daysBefore (year : Int) : Int :=
  365 * year + year / 4 - year / 100 + year / 400

variable {day year century : Int}

/-! ## The year of a day

Of the days of an era one in 1460 is taken off, and one in 36524 is put back, so that 365 of what is
left make a year. All centuries but the last are alike.
-/

theorem daysBefore_le (hcentury : century = day / 36524) (hlast : century ≤ 3)
    (hyear : year = (day - day / 1460 + century) / 365) (hyears : year / 100 = century)
    (hpos : 0 ≤ century) : daysBefore year ≤ day := by
  have hera : year / 400 = 0 := by omega
  rw [daysBefore, hyears, hera]
  omega

theorem lt_daysBefore_succ (hday : day < 146096) (hcentury : century = day / 36524)
    (hlast : century ≤ 3) (hyear : year = (day - day / 1460 + century) / 365)
    (hyears : year / 100 = century) (hpos : 0 ≤ century) : day < daysBefore (year + 1) := by
  rw [daysBefore]
  by_cases hend : year = 100 * century + 99
  · have hquarters : (year + 1) / 4 = 25 * (century + 1) := by omega
    have hcenturies : (year + 1) / 100 = century + 1 := by omega
    rw [hquarters, hcenturies]
    omega
  · have hcenturies : (year + 1) / 100 = century := by omega
    have hera : (year + 1) / 400 = 0 := by omega
    have hleap : day / 1460 ≤ (year + 1) / 4 := by omega
    rw [hcenturies, hera]
    omega

theorem yearOfEra_spec (hpos : 0 ≤ day) (hday : day < 146097)
    (hyear : year = (day - day / 1460 + day / 36524 - day / 146096) / 365) :
    0 ≤ year ∧ year ≤ 399 ∧ daysBefore year ≤ day ∧ day < daysBefore (year + 1) := by
  by_cases hend : day = 146096
  · subst hend
    obtain rfl : year = 399 := hyear
    decide
  · have hlast : day / 146096 = 0 := by omega
    obtain ⟨century, hcentury⟩ : ∃ century, century = day / 36524 := ⟨_, rfl⟩
    rw [hlast, ← hcentury, Int.sub_zero] at hyear
    have hthree : century ≤ 3 := by omega
    have hnonneg : 0 ≤ century := by omega
    have hyears : year / 100 = century := by
      obtain rfl | rfl | rfl | rfl : century = 0 ∨ century = 1 ∨ century = 2 ∨ century = 3 := by
        omega
      all_goals omega
    exact ⟨by omega, by omega, daysBefore_le hcentury hthree hyear hyears hnonneg,
      lt_daysBefore_succ (by omega) hcentury hthree hyear hyears hnonneg⟩

/-! ## The parts of a day -/

/-- A day as the day of a year of an era, and the month that the day of the year lies in; the first
month is March. -/
structure Parts (days era year dayOfYear month : Int) : Prop where
  days_eq : days + 719468 = era * 146097 + daysBefore year + dayOfYear
  year_nonneg : 0 ≤ year
  year_le : year ≤ 399
  day_nonneg : 0 ≤ dayOfYear
  day_lt : daysBefore year + dayOfYear < daysBefore (year + 1)
  month_eq : month = (5 * dayOfYear + 2) / 153

theorem exists_parts (days : Int) :
    ∃ era year dayOfYear month, Parts days era year dayOfYear month ∧
      ofDays days =
        ⟨year + era * 400 + (if month < 10 then 0 else 1),
          (if month < 10 then month + 3 else month - 9).toNat,
          (dayOfYear - (153 * month + 2) / 5 + 1).toNat⟩ := by
  obtain ⟨day, hday⟩ : ∃ day, day = (days + 719468) % 146097 := ⟨_, rfl⟩
  obtain ⟨year, hyear⟩ :
    ∃ year, year = (day - day / 1460 + day / 36524 - day / 146096) / 365 := ⟨_, rfl⟩
  obtain ⟨hnonneg, hle, hbefore, hafter⟩ := yearOfEra_spec (by omega) (by omega) hyear
  have hera : year / 400 = 0 := by omega
  have hsum : daysBefore year = 365 * year + year / 4 - year / 100 := by
    rw [daysBefore, hera, Int.add_zero]
  refine ⟨(days + 719468) / 146097, year, day - daysBefore year, _,
    ⟨by omega, hnonneg, hle, by omega, by omega, rfl⟩, ?_⟩
  simp only [ofDays, ← hday, ← hyear, ← hsum]
  by_cases hmonth : (5 * (day - daysBefore year) + 2) / 153 < 10
  · simp only [if_pos hmonth]
    rw [if_neg (by omega)]
  · simp only [if_neg hmonth]
    rw [if_pos (by omega)]

variable {days era dayOfYear month : Int}

theorem Parts.month_nonneg (h : Parts days era year dayOfYear month) : 0 ≤ month := by
  have hday := h.day_nonneg
  have hmonth := h.month_eq
  omega

/-- The leap day comes last, and only in years before a leap year. -/
theorem Parts.day_le (h : Parts days era year dayOfYear month) :
    dayOfYear ≤ 365 ∧ (dayOfYear = 365 → isLeapYear (year + era * 400 + 1) = true) := by
  have hlt := h.day_lt
  have hyear := h.year_nonneg
  have hle := h.year_le
  unfold daysBefore at hlt
  refine ⟨by omega, fun hlast => ?_⟩
  simp only [isLeapYear, Bool.and_eq_true, Bool.or_eq_true, decide_eq_true_eq]
  omega

theorem Parts.month_le (h : Parts days era year dayOfYear month) : month ≤ 11 := by
  obtain ⟨hle, -⟩ := h.day_le
  have hmonth := h.month_eq
  omega

/-- A day lies in its month. -/
theorem Parts.day_in_month (h : Parts days era year dayOfYear month) :
    (153 * month + 2) / 5 ≤ dayOfYear ∧ dayOfYear < (153 * (month + 1) + 2) / 5 := by
  have hmonth := h.month_eq
  omega

/-! ## Main statements -/

theorem toDays_ofDays (days : Int) : (ofDays days).toDays = days := by
  obtain ⟨era, year, dayOfYear, month, hparts, hdate⟩ := exists_parts days
  obtain ⟨hfirst, -⟩ := hparts.day_in_month
  have hpos := hparts.month_nonneg
  have hle := hparts.month_le
  have hsum := hparts.days_eq
  have hyear := hparts.year_nonneg
  have hyears := hparts.year_le
  have hera : year / 400 = 0 := by omega
  have hwhole : (year + era * 400) / 400 = era := by omega
  have hrest : (year + era * 400) % 400 = year := by omega
  rw [daysBefore, hera] at hsum
  rw [hdate, toDays]
  by_cases hmonth : month < 10
  · have hlate : ¬ (month + 3).toNat ≤ 2 := by omega
    simp only [if_pos hmonth, if_neg hlate, Int.add_zero, hwhole, hrest]
    omega
  · have hearly : (month - 9).toNat ≤ 2 := by omega
    simp only [if_neg hmonth, if_pos hearly, Int.add_sub_cancel, hwhole, hrest]
    omega

/-! ## Days that the calendar has -/

/-- The other months are as long as from their first day to that of the next one. -/
theorem daysInMonth_of_ne_two (year : Int) {month : Nat} (hpos : 1 ≤ month) (hle : month ≤ 12)
    (hfebruary : month ≠ 2) :
    (daysInMonth year month : Int) =
      (153 * ((month + 9 : Int) % 12 + 1) + 2) / 5 - (153 * ((month + 9 : Int) % 12) + 2) / 5 := by
  rw [daysInMonth, if_neg hfebruary]
  obtain rfl | rfl | rfl | rfl | rfl | rfl | rfl | rfl | rfl | rfl | rfl : month = 1 ∨ month = 3 ∨
    month = 4 ∨ month = 5 ∨ month = 6 ∨ month = 7 ∨ month = 8 ∨ month = 9 ∨ month = 10 ∨
    month = 11 ∨ month = 12 := by omega
  all_goals rfl

theorem Parts.day_le_daysInMonth (h : Parts days era year dayOfYear month) :
    dayOfYear - (153 * month + 2) / 5 + 1 ≤
      (daysInMonth (year + era * 400 + if month < 10 then 0 else 1)
        (if month < 10 then month + 3 else month - 9).toNat : Int) := by
  obtain ⟨-, hday⟩ := h.day_in_month
  have hpos := h.month_nonneg
  have hle := h.month_le
  by_cases hfebruary : month = 11
  · subst hfebruary
    obtain ⟨hend, hleap⟩ := h.day_le
    rw [if_neg (by decide), if_neg (by decide)]
    cases hlong : isLeapYear (year + era * 400 + 1) with
    | true =>
        have hlength : daysInMonth (year + era * 400 + 1) 2 = 29 := by simp [daysInMonth, hlong]
        rw [show (11 - 9 : Int).toNat = 2 from rfl, hlength]
        omega
    | false =>
        have hshort : dayOfYear ≠ 365 := fun hlast => by simp [hleap hlast] at hlong
        have hlength : daysInMonth (year + era * 400 + 1) 2 = 28 := by simp [daysInMonth, hlong]
        rw [show (11 - 9 : Int).toNat = 2 from rfl, hlength]
        omega
  · obtain ⟨number, hnumber⟩ :
      ∃ number : Nat, (if month < 10 then month + 3 else month - 9).toNat = number := ⟨_, rfl⟩
    have hmarch : (number + 9 : Int) % 12 = month := by
      split at hnumber <;> omega
    rw [hnumber, daysInMonth_of_ne_two _ (by split at hnumber <;> omega)
      (by split at hnumber <;> omega) (by split at hnumber <;> omega), hmarch]
    omega

theorem Parts.year_bounds (h : Parts days era year dayOfYear month)
    (hfirst : toDays ⟨minYear, 1, 1⟩ ≤ days) (hlast : days ≤ toDays ⟨maxYear, 12, 31⟩) :
    minYear ≤ year + era * 400 + (if month < 10 then 0 else 1) ∧
      year + era * 400 + (if month < 10 then 0 else 1) ≤ maxYear := by
  have hlow : toDays ⟨minYear, 1, 1⟩ = -96465292 := by decide
  have hhigh : toDays ⟨maxYear, 12, 31⟩ = 95026236 := by decide
  have hsum := h.days_eq
  have hyear := h.year_nonneg
  have hyears := h.year_le
  have hday := h.day_nonneg
  have hera : year / 400 = 0 := by omega
  obtain ⟨hdays, -⟩ := h.day_le
  -- the year that begins in March ends in the second month of the next year
  have hspring : month < 10 ↔ dayOfYear < 306 := by
    have hmonth := h.month_eq
    omega
  rw [hlow] at hfirst
  rw [hhigh] at hlast
  rw [daysBefore, hera] at hsum
  simp only [minYear, maxYear, hspring]
  split
  · omega
  · have hle : era ≤ 655 := by omega
    have hlate : era = 655 → year ≤ 141 := by
      intro hlate
      have hcenturies : year / 100 ≤ 1 := by omega
      omega
    omega

/-- The date of a day is a date if its year is one of the calendar. -/
theorem isValid_ofDays_of_year (hfirst : minYear ≤ (ofDays days).year)
    (hlast : (ofDays days).year ≤ maxYear) : (ofDays days).isValid = true := by
  obtain ⟨era, year, dayOfYear, month, hparts, hdate⟩ := exists_parts days
  rw [hdate] at hfirst hlast
  obtain ⟨hday, -⟩ := hparts.day_in_month
  have hlength := hparts.day_le_daysInMonth
  have hpos := hparts.month_nonneg
  have hle := hparts.month_le
  simp only [hdate, isValid, Bool.and_eq_true, decide_eq_true_eq]
  refine ⟨⟨⟨⟨⟨hfirst, hlast⟩, ?_⟩, ?_⟩, ?_⟩, ?_⟩
  · split <;> omega
  · split <;> omega
  · omega
  · omega

/-- The date of a day between the first one and the last one is a date. -/
theorem isValid_ofDays (hfirst : toDays ⟨minYear, 1, 1⟩ ≤ days)
    (hlast : days ≤ toDays ⟨maxYear, 12, 31⟩) : (ofDays days).isValid = true := by
  obtain ⟨era, year, dayOfYear, month, hparts, hdate⟩ := exists_parts days
  obtain ⟨hyear, hyear'⟩ := hparts.year_bounds hfirst hlast
  apply isValid_ofDays_of_year
  · rw [hdate]
    exact hyear
  · rw [hdate]
    exact hyear'

end ForgeSync.Calendar.Civil
