import SharedQuota.Time

/-!
The calendar. Main statements (`isValid_ofDays`, `toDays_ofDays`): every day has a date, and the
date counts to that day.
-/

namespace SharedQuota.Time.Date

/-! ### Years -/

/-- The year, from March to March, of a day of an era of 400 years. -/
def yearOfEra (day : Int) : Int := (day - day / 1460 + day / 36524 - day / 146096) / 365

def dayOfYear (day : Int) : Int :=
  day - (365 * yearOfEra day + yearOfEra day / 4 - yearOfEra day / 100)

/-- A day of an era counted by centuries, by four years, by years and by days. The leap day is the
last of four years; the last four of a century lack it, but for the last century. -/
structure IsCounted (day century four one rest : Int) : Prop where
  day_eq : day = 36524 * century + 1461 * four + 365 * one + rest
  year_eq : yearOfEra day = 100 * century + 4 * four + one
  century_range : 0 ≤ century ∧ century ≤ 3
  four_range : 0 ≤ four ∧ four ≤ 24
  one_range : 0 ≤ one ∧ one ≤ 3
  rest_range : 0 ≤ rest ∧ rest ≤ 365
  leap : rest = 365 → one = 3 ∧ (four ≤ 23 ∨ century = 3)

theorem exists_isCounted {day : Int} (h0 : 0 ≤ day) (h1 : day < 146097) :
    ∃ century four one rest, IsCounted day century four one rest := by
  rcases (show day < 146096 ∨ day = 146096 by omega) with hlt | rfl
  case inr => exact ⟨3, 24, 3, 365, by decide, by decide, by decide, by decide, by decide,
    by decide, by decide⟩
  case inl =>
    obtain ⟨century, hcentury⟩ : ∃ n, n = day / 36524 := ⟨_, rfl⟩
    obtain ⟨four, hfour⟩ : ∃ n, n = day % 36524 / 1461 := ⟨_, rfl⟩
    obtain ⟨left, hleft⟩ : ∃ n, n = day % 36524 % 1461 := ⟨_, rfl⟩
    have hday : day = 36524 * century + 1461 * four + left := by omega
    have hshort : four = 24 → left ≤ 1459 := by omega
    have hcenturies : 0 ≤ century ∧ century ≤ 3 := by omega
    have hfours : 0 ≤ four ∧ four ≤ 24 := by omega
    have hlefts : 0 ≤ left ∧ left ≤ 1460 := by omega
    -- a division by 1460 counts the leap days too early, but only in a year that has one
    have hleaps : day / 1460 = 25 * century + four ∧ left ≤ 1459 ∨
        day / 1460 = 25 * century + four + 1 ∧ 1364 ≤ left := by
      clear hcentury hfour hleft
      omega
    have hera : day / 146096 = 0 := by omega
    obtain ⟨one, hone⟩ : ∃ n, n = yearOfEra day - 100 * century - 4 * four := ⟨_, rfl⟩
    have hones : 0 ≤ one ∧ one ≤ 3 ∧ 365 * one ≤ left ∧ (left < 365 * one + 365 ∨ one = 3) := by
      rw [yearOfEra, hera, ← hcentury] at hone
      clear hcentury hfour hleft
      rcases hleaps with ⟨hleaps, -⟩ | ⟨hleaps, -⟩ <;> rw [hleaps] at hone <;> omega
    exact ⟨century, four, one, left - 365 * one, by omega, by omega, hcenturies, hfours,
      ⟨hones.1, hones.2.1⟩, by omega, by omega⟩

variable {day century four one rest : Int}

theorem IsCounted.dayOfYear_eq (h : IsCounted day century four one rest) :
    dayOfYear day = rest := by
  obtain ⟨hday, hyear, -, hfour, hone, -, -⟩ := h
  rw [dayOfYear, hyear, hday]
  omega

theorem IsCounted.year_range (h : IsCounted day century four one rest) :
    0 ≤ yearOfEra day ∧ yearOfEra day < 400 := by
  obtain ⟨-, hyear, hcentury, hfour, hone, -, -⟩ := h
  omega

theorem IsCounted.isLeapYear (h : IsCounted day century four one rest) (hrest : rest = 365)
    (era : Int) : isLeapYear (yearOfEra day + era * 400 + 1) = true := by
  obtain ⟨-, hyear, hcentury, hfour, hone, -, hleap⟩ := h
  obtain ⟨rfl, hfours⟩ := hleap hrest
  simp only [isLeapYear, hyear, Bool.or_eq_true, Bool.and_eq_true, beq_iff_eq, bne_iff_ne]
  omega

/-! ### Months -/

/-- The month, from March on, of a day of the year. -/
def monthFrom (rest : Int) : Int := (5 * rest + 2) / 153

def monthOf (rest : Int) : Int :=
  if monthFrom rest < 10 then monthFrom rest + 3 else monthFrom rest - 9

def dayOfMonth (rest : Int) : Int := rest - (153 * monthFrom rest + 2) / 5 + 1

theorem monthOf_range {rest : Int} (h : 0 ≤ rest ∧ rest ≤ 365) :
    1 ≤ monthOf rest ∧ monthOf rest ≤ 12 := by
  rw [monthOf, monthFrom]
  split <;> omega

theorem monthFrom_eq {rest : Int} (h : 0 ≤ rest ∧ rest ≤ 365) :
    (monthOf rest + 9) % 12 = monthFrom rest := by
  rw [monthOf, monthFrom]
  split <;> omega

theorem one_le_dayOfMonth (rest : Int) : 1 ≤ dayOfMonth rest := by
  rw [dayOfMonth, monthFrom]
  omega

/-- No month is shorter than in a common year. -/
theorem daysInMonth_one_le (year : Int) (month : Nat) :
    daysInMonth 1 month ≤ daysInMonth year month := by
  rw [daysInMonth, daysInMonth]
  split
  · cases isLeapYear year <;> decide
  · exact Nat.le_refl _

/-- A day of the year is in its month, though the last only in a leap year. -/
theorem dayOfMonth_le {rest : Int} (h : 0 ≤ rest ∧ rest ≤ 365) {year : Int}
    (hleap : rest = 365 → isLeapYear year = true) :
    (dayOfMonth rest).toNat ≤ daysInMonth year (monthOf rest).toNat := by
  have hcommon : ∀ i : Fin 365,
      (dayOfMonth i.val).toNat ≤ daysInMonth 1 (monthOf i.val).toNat := by decide +kernel
  obtain ⟨n, rfl⟩ := Int.eq_ofNat_of_zero_le h.1
  rcases Nat.lt_or_eq_of_le (Int.ofNat_le.1 h.2) with hlt | rfl
  · exact Nat.le_trans (hcommon ⟨n, hlt⟩) (daysInMonth_one_le year _)
  · rw [daysInMonth, hleap rfl]
    decide

/-! ### Dates -/

theorem ofDays_eq (days : Int) : ofDays days =
    ⟨yearOfEra ((days + 719468) % 146097) + (days + 719468) / 146097 * 400 +
        (if monthOf (dayOfYear ((days + 719468) % 146097)) ≤ 2 then 1 else 0),
      (monthOf (dayOfYear ((days + 719468) % 146097))).toNat,
      (dayOfMonth (dayOfYear ((days + 719468) % 146097))).toNat⟩ := rfl

theorem isValid_ofDays (days : Int) : (ofDays days).isValid = true := by
  obtain ⟨century, four, one, rest, h⟩ := exists_isCounted
    (Int.emod_nonneg (days + 719468) (by decide : (146097 : Int) ≠ 0))
    (Int.emod_lt_of_pos (days + 719468) (by decide))
  have hmonth := monthOf_range h.rest_range
  have hday := one_le_dayOfMonth rest
  rw [ofDays_eq, h.dayOfYear_eq, isValid]
  simp only [Bool.and_eq_true, decide_eq_true_eq]
  refine ⟨⟨⟨by omega, by omega⟩, by omega⟩, dayOfMonth_le h.rest_range fun hrest => ?_⟩
  have hfebruary : monthOf rest ≤ 2 := by rw [hrest]; decide
  rw [if_pos hfebruary]
  exact h.isLeapYear hrest _

theorem toDays_ofDays (days : Int) : (ofDays days).toDays = days := by
  obtain ⟨century, four, one, rest, h⟩ := exists_isCounted
    (Int.emod_nonneg (days + 719468) (by decide : (146097 : Int) ≠ 0))
    (Int.emod_lt_of_pos (days + 719468) (by decide))
  have hyear := h.year_range
  have hcount := h.dayOfYear_eq
  obtain ⟨month, hmonth⟩ := Int.eq_ofNat_of_zero_le
    (Int.le_trans (by decide) (monthOf_range h.rest_range).1)
  obtain ⟨day, hday⟩ := Int.eq_ofNat_of_zero_le (Int.le_trans (by decide) (one_le_dayOfMonth rest))
  have hpositive := one_le_dayOfMonth rest
  have hfrom : monthFrom rest = ((month + 9) % 12 : Nat) := by
    rw [← monthFrom_eq h.rest_range, hmonth]
    omega
  have hrest : (((153 * ((month + 9) % 12) + 2) / 5 + day - 1 : Nat) : Int) = rest := by
    rw [dayOfMonth, hfrom] at hday hpositive
    generalize (month + 9) % 12 = m at hday hpositive ⊢
    omega
  rw [ofDays_eq, h.dayOfYear_eq, toDays, hmonth, hday, Int.toNat_natCast, Int.toNat_natCast]
  dsimp only
  rw [hrest]
  rw [dayOfYear] at hcount
  generalize yearOfEra ((days + 719468) % 146097) = year at hyear hcount ⊢
  generalize hshifted : days + 719468 = shifted at hcount ⊢
  -- in January and February the year of the date is ahead of the one that began in March
  have hmarch : (if month ≤ 2 then
      year + shifted / 146097 * 400 + (if (month : Int) ≤ 2 then 1 else 0) - 1
      else year + shifted / 146097 * 400 + if (month : Int) ≤ 2 then 1 else 0) =
        year + shifted / 146097 * 400 := by
    split <;> split <;> omega
  rw [hmarch]
  clear hmarch hmonth hday hfrom hpositive hrest
  omega

end SharedQuota.Time.Date
