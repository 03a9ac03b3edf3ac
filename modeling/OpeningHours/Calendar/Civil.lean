import OpeningHours.Calendar.Weekday

/-!
# The Gregorian calendar by day number

Days are numbered from 1 January of year 0 of the proleptic Gregorian calendar, so
a date is an integer and the year, the month and the day of the month are read off
it. Numbers have no bounds here; `Date` puts the bounds of the supported calendar
around them.

Years and months are found by closed formulas. Each has one law that says what it
finds: `yearOf` the year whose days surround a number, `monthOf` the month whose
days surround a day of the year.
-/

namespace OpeningHours.Civil

/-- A year divisible by 4 is leap, unless it is divisible by 100 and not by 400. -/
def isLeap (year : Int) : Bool := year % 4 == 0 && (year % 100 != 0 || year % 400 == 0)

/-- The number of 1 January of a year: 365 days a year, and one for every leap year before. -/
def daysBeforeYear (year : Int) : Int :=
  365 * year + (year + 3) / 4 - (year + 99) / 100 + (year + 399) / 400

/-- The length of a year. -/
def yearLength (year : Int) : Nat := if isLeap year then 366 else 365

theorem daysBeforeYear_succ (year : Int) :
    daysBeforeYear (year + 1) = daysBeforeYear year + yearLength year := by
  unfold daysBeforeYear yearLength isLeap
  by_cases h4 : year % 4 = 0 <;> by_cases h100 : year % 100 = 0 <;>
    by_cases h400 : year % 400 = 0 <;> simp [h4, h100, h400] <;> omega

/-- The year of a day. The quotient by the mean length of a year is the year or the one after. -/
def yearOf (number : Int) : Int :=
  let year := (400 * number + 399) / 146097
  if number < daysBeforeYear year then year - 1 else year

theorem daysBeforeYear_yearOf_le (number : Int) :
    daysBeforeYear (yearOf number) ≤ number := by
  simp only [yearOf]
  split
  · unfold daysBeforeYear; omega
  · omega

theorem lt_daysBeforeYear_succ_yearOf (number : Int) :
    number < daysBeforeYear (yearOf number + 1) := by
  simp only [yearOf]
  split
  · rw [Int.sub_add_cancel]; assumption
  · unfold daysBeforeYear; omega

/-- The place of a day in its year, 1 January being 0. -/
def dayOfYear (number : Int) : Nat := (number - daysBeforeYear (yearOf number)).toNat

theorem dayOfYear_lt (number : Int) : dayOfYear number < yearLength (yearOf number) := by
  have := daysBeforeYear_yearOf_le number
  have := lt_daysBeforeYear_succ_yearOf number
  rw [daysBeforeYear_succ] at this
  unfold dayOfYear
  omega

/-- What February falls short of the 30 days that the formulas for months give it. -/
def februaryGap (leap : Bool) : Nat := if leap then 1 else 2

/-- How many days of a year come before the first of a month. -/
def daysBeforeMonth (leap : Bool) (month : Nat) : Nat :=
  (367 * month - 362) / 12 - if month ≤ 2 then 0 else februaryGap leap

/-- The month of a day of the year. -/
def monthOf (leap : Bool) (day : Nat) : Nat :=
  (12 * (if day < daysBeforeMonth leap 3 then day else day + februaryGap leap) + 373) / 367

/-- The number of days in a month. -/
def monthLength (leap : Bool) (month : Nat) : Nat :=
  match month with
  | 2 => if leap then 29 else 28
  | 4 | 6 | 9 | 11 => 30
  | _ => 31

theorem daysBeforeMonth_monthOf_le (leap : Bool) (day : Nat) (h : day < if leap then 366 else 365) :
    daysBeforeMonth leap (monthOf leap day) ≤ day := by
  cases leap <;> simp [daysBeforeMonth, monthOf, februaryGap] at h ⊢ <;>
    (repeat' split) <;> omega

theorem lt_daysBeforeMonth_succ_monthOf (leap : Bool) (day : Nat) :
    day < daysBeforeMonth leap (monthOf leap day + 1) := by
  cases leap <;> simp [daysBeforeMonth, monthOf, februaryGap] <;> (repeat' split) <;> omega

theorem daysBeforeMonth_succ (leap : Bool) (month : Nat) (h : 1 ≤ month ∧ month ≤ 12) :
    daysBeforeMonth leap (month + 1) = daysBeforeMonth leap month + monthLength leap month := by
  obtain ⟨h₁, h₂⟩ := h
  cases leap <;>
    (rcases month with _ | _ | _ | _ | _ | _ | _ | _ | _ | _ | _ | _ | _ | n
     all_goals first | rfl | omega)

/-- The number of a day from its year, its month and its day of the month. -/
def numberOf (year : Int) (month day : Nat) : Int :=
  daysBeforeYear year + daysBeforeMonth (isLeap year) month + day - 1

/-- The day of the week of a day. Day 0 of the count was a Saturday. -/
def weekdayOf (number : Int) : Weekday :=
  .ofIndex ⟨((number + 5) % 7).toNat, by omega⟩

theorem weekdayOf_index (number : Int) : ((weekdayOf number).index : Int) = (number + 5) % 7 := by
  simp only [weekdayOf, Weekday.index_ofIndex]
  omega

theorem weekdayOf_eq_iff {number : Int} {w : Weekday} :
    weekdayOf number = w ↔ (number + 5) % 7 = w.index := by
  rw [← weekdayOf_index number]
  refine ⟨fun h => by rw [h], fun h => ?_⟩
  rw [← Weekday.ofIndex_index (weekdayOf number), ← Weekday.ofIndex_index w]
  exact congrArg Weekday.ofIndex (Fin.ext (Int.ofNat.inj h))

end OpeningHours.Civil
