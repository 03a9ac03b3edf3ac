import OpeningHours.Proofs.DatePoint

/-!
# Easter and the moon

Easter is the Sunday after the full moon, and the full moon comes from the place of the year in a
cycle of nineteen years, put right every century. The program does this in one chain of divisions.
The other way, told here beside it, goes by the *epact*, the age of the moon at the start of the
year, of which two values are moved on by a day.

The chain finds the full moon without moving anything on. It finds a Sunday after it, and then
takes a week back. That is so exactly where an epact is moved on and the day it is moved away from
was a Sunday; and so the two ways agree.

They agree from year 0 on. Before it the chain divides the number of the century toward zero, so
that the remainder by 4 is negative. This moves the weekday, by one day in each century but every
fourth.
-/

namespace OpeningHours

/-! ## Days counted from March -/

namespace Civil

/-- The number of the `n`-th day of March. From 32 on it is a day of April. -/
def march (year n : Int) : Int := numberOf year 3 1 + (n - 1)

theorem numberOf_march (year : Int) (day : Nat) : numberOf year 3 day = march year day := by
  unfold march numberOf
  omega

theorem numberOf_april (year : Int) (day : Nat) : numberOf year 4 day = march year (day + 31) := by
  have hnext : daysBeforeMonth (isLeap year) 4 = daysBeforeMonth (isLeap year) 3 + 31 :=
    daysBeforeMonth_succ (isLeap year) 3 (by decide)
  unfold march numberOf
  omega

/-- From March on, a leap day is one day more before the year, and not in it. -/
theorem march_eq (year n : Int) :
    march year n = 365 * year + year / 4 - year / 100 + year / 400 + 59 + n := by
  have hthird : (daysBeforeMonth (isLeap year) 3 : Int) = yearLength year - 306 := by
    unfold yearLength
    cases isLeap year <;> rfl
  have hsucc := daysBeforeYear_succ year
  unfold daysBeforeYear at hsucc
  unfold march numberOf daysBeforeYear
  omega

end Civil

/-! ## The parts of the rule -/

namespace Computus

variable {year : Int}

theorem moon_bounds (year : Int) : 0 ≤ (ofYear year).moon ∧ (ofYear year).moon ≤ 29 := by
  unfold ofYear
  dsimp only
  omega

theorem sunday_bounds (year : Int) : 0 ≤ (ofYear year).sunday ∧ (ofYear year).sunday ≤ 6 := by
  unfold ofYear
  dsimp only
  omega

/-- The full moon is put a day too late, on 19 April or, in some years, on 18 April. -/
def MoonLate (year : Int) : Prop :=
  (ofYear year).moon = 29 ∨ (ofYear year).moon = 28 ∧ 10 < year % 19

instance (year : Int) : Decidable (MoonLate year) := inferInstanceAs (Decidable (_ ∨ _))

/--
A week is taken back where the moon is late and put on a Sunday. It was full the day before, so
that this Sunday is after it.
-/
theorem late_eq (year : Int) :
    (ofYear year).late = if (ofYear year).sunday = 6 ∧ MoonLate year then 1 else 0 := by
  have hmoon := moon_bounds year
  have hsunday := sunday_bounds year
  have hlate : (ofYear year).late =
      (year % 19 + 11 * (ofYear year).moon + 22 * (ofYear year).sunday) / 451 := rfl
  unfold MoonLate
  split <;> omega

/-- Easter as a day of March, or of April from 32 on. -/
def day (c : Computus) : Int := 22 + c.moon + c.sunday - 7 * c.late

theorem day_bounds (year : Int) : 22 ≤ (ofYear year).day ∧ (ofYear year).day ≤ 56 := by
  have hmoon := moon_bounds year
  have hsunday := sunday_bounds year
  have hlate := late_eq year
  unfold MoonLate at hlate
  unfold day
  split at hlate <;> omega

/-- The marker of the rule stands for a day of March or of April. -/
theorem easter?_eq_ofYmd? (year : Int) :
    easter? year = if (ofYear year).day ≤ 31 then Date.ofYmd? year 3 (ofYear year).day.toNat
      else Date.ofYmd? year 4 ((ofYear year).day - 31).toNat := by
  have hbounds := day_bounds year
  have hmarker : (ofYear year).marker = (ofYear year).day + 92 := by
    unfold marker day
    omega
  unfold easter?
  dsimp only
  rw [hmarker]
  split
  · have hmonth : ((ofYear year).day + 92) / 31 = 3 := by omega
    have hday : ((ofYear year).day + 92) % 31 + 1 = (ofYear year).day := by omega
    rw [hmonth, hday]
    rfl
  · have hmonth : ((ofYear year).day + 92) / 31 = 4 := by omega
    have hday : ((ofYear year).day + 92) % 31 + 1 = (ofYear year).day - 31 := by omega
    rw [hmonth, hday]
    rfl

/-- Between 22 March and 25 April, the days on which Easter can fall. -/
def IsEasterDay (d : Date) : Prop := d.month = 3 ∧ 22 ≤ d.day ∨ d.month = 4 ∧ d.day ≤ 25

/-- Every year of the calendar has its Easter. -/
theorem exists_easter? (hyear : minYear ≤ year ∧ year ≤ maxYear) :
    ∃ d, easter? year = some d ∧ d.number = Civil.march year (ofYear year).day ∧
      d.year = year ∧ IsEasterDay d := by
  have hbounds := day_bounds year
  have hmarch : Civil.monthLength (Civil.isLeap year) 3 = 31 := rfl
  have hapril : Civil.monthLength (Civil.isLeap year) 4 = 30 := rfl
  rw [easter?_eq_ofYmd?]
  by_cases hle : (ofYear year).day ≤ 31
  · obtain ⟨d, hd⟩ : ∃ d, Date.ofYmd? year 3 (ofYear year).day.toNat = some d :=
      Date.exists_ofYmd? hyear (by decide) (by omega)
    obtain ⟨hnumber, hdate, hmonth, hday⟩ := Date.ofYmd?_spec hd
    rw [Civil.numberOf_march, Int.toNat_of_nonneg (by omega)] at hnumber
    exact ⟨d, by rw [if_pos hle, hd], hnumber, hdate, .inl ⟨hmonth, by omega⟩⟩
  · obtain ⟨d, hd⟩ : ∃ d, Date.ofYmd? year 4 ((ofYear year).day - 31).toNat = some d :=
      Date.exists_ofYmd? hyear (by decide) (by omega)
    obtain ⟨hnumber, hdate, hmonth, hday⟩ := Date.ofYmd?_spec hd
    rw [Civil.numberOf_april, Int.toNat_of_nonneg (by omega), Int.sub_add_cancel] at hnumber
    exact ⟨d, by rw [if_neg hle, hd], hnumber, hdate, .inr ⟨hmonth, by omega⟩⟩

/-! ## The weekday -/

/-- Division toward zero leaves a negative century a remainder that is 4 too small. -/
theorem tmod_century (year : Int) : (year / 100).tmod 4 =
    if 0 ≤ year ∨ year % 400 < 100 then year / 100 % 4 else year / 100 % 4 - 4 := by
  rw [Int.tmod_eq_emod]
  split <;> split <;> omega

/-- The rule comes to a Sunday, or to the day before one where the century is taken amiss. -/
theorem weekday_march_day (year : Int) : (Civil.march year (ofYear year).day + 5) % 7 =
    if 0 ≤ year ∨ year % 400 < 100 then 6 else 5 := by
  have hsunday : (ofYear year).sunday = (32 + 2 * (year / 100).tmod 4 +
      2 * (year % 100 / 4) - (ofYear year).moon - year % 100 % 4) % 7 := rfl
  have hquarter : year / 4 = 25 * (year / 100) + year % 100 / 4 := by omega
  have hcycle : year / 400 = year / 100 / 4 := by omega
  rw [tmod_century] at hsunday
  rw [Civil.march_eq, hquarter, hcycle]
  unfold day
  split at hsunday
  · rw [if_pos ‹_›]
    omega
  · rw [if_neg ‹_›]
    omega

end Computus

open Computus in
/--
**When Easter is a Sunday.**

Every year of the calendar has its Easter, between 22 March and 25 April. From year 0 on it is a
Sunday. Before year 0 it is one in the first of four centuries only, and a Saturday in the others.
-/
theorem weekday_easter? {year : Int} (hyear : minYear ≤ year ∧ year ≤ maxYear) :
    ∃ d, easter? year = some d ∧ d.year = year ∧ IsEasterDay d ∧
      d.weekday = if 0 ≤ year ∨ year % 400 < 100 then .sun else .sat := by
  obtain ⟨d, hd, hnumber, hdate, hday⟩ := exists_easter? hyear
  have hweekday := weekday_march_day year
  rw [← hnumber] at hweekday
  refine ⟨d, hd, hdate, hday, Date.weekday_eq_iff.2 ?_⟩
  rw [hweekday]
  split <;> rfl

/-- In year -400 Easter is a Sunday. -/
theorem weekday_easter?_fourCenturiesBefore :
    ∃ d, easter? (-400) = some d ∧ d.year = -400 ∧ Computus.IsEasterDay d ∧ d.weekday = .sun :=
  weekday_easter? (by decide)

/-- In year -1, a year of the calendar, it is a Saturday. -/
theorem easter?_not_on_sunday :
    (minYear ≤ -1 ∧ -1 ≤ maxYear) ∧ ∃ d, easter? (-1) = some d ∧ d.weekday ≠ .sun :=
  ⟨by decide, ⟨-259, by decide, by decide⟩, by decide, by decide⟩

/-! ## The epact -/

namespace Epact

/-- The place of a year in a cycle of nineteen years, after which the moon comes round again. -/
def goldenNumber (year : Int) : Int := year % 19 + 1

/-- The century of a year, as centuries are counted from the first one on. -/
def century (year : Int) : Int := year / 100 + 1

/-- The centuries that began without a leap day, from the sixteenth on. -/
def leapDaysLeftOut (year : Int) : Int := 3 * century year / 4 - 12

/-- How far the cycle has fallen behind the moon, eight days in 25 centuries. -/
def moonCorrection (year : Int) : Int := (8 * century year + 5) / 25 - 5

/-- The age of the moon on 1 January, before two of its values are moved on. -/
def age (year : Int) : Int :=
  (11 * goldenNumber year + 20 + moonCorrection year - leapDaysLeftOut year) % 30

/-- The epact of a year. -/
def epact (year : Int) : Int :=
  if age year = 24 ∨ age year = 25 ∧ 11 < goldenNumber year then age year + 1 else age year

/-- The first full moon from 21 March on, as a day of March. -/
def fullMoon (year : Int) : Int :=
  if 44 - epact year < 21 then 44 - epact year + 30 else 44 - epact year

variable {year : Int}

/-- Both ways correct the moon alike. One leaves out the leap days, the other counts those that are left. -/
theorem moon_eq (hyear : 0 ≤ year) : (Computus.ofYear year).moon = (23 - age year) % 30 := by
  have hcentury : 0 ≤ year / 100 := by omega
  have hlate : 0 ≤ year / 100 + 8 := by omega
  have hkept : 0 ≤ year / 100 - (year / 100 + 8) / 25 + 1 := by omega
  have hleap : 3 * century year / 4 = year / 100 - year / 100 / 4 := by
    unfold century
    omega
  have hdrift : (8 * century year + 5) / 25 = (year / 100 - (year / 100 + 8) / 25 + 1) / 3 := by
    unfold century
    omega
  unfold Computus.ofYear
  dsimp only
  rw [Int.tdiv_eq_ediv_of_nonneg hcentury, Int.tdiv_eq_ediv_of_nonneg hlate,
    Int.tdiv_eq_ediv_of_nonneg hkept, ← hdrift]
  unfold age goldenNumber moonCorrection leapDaysLeftOut
  omega

theorem age_bounds (year : Int) : 0 ≤ age year ∧ age year < 30 := by
  unfold age
  omega

/-- The epact is moved on for the moons that are late. -/
theorem moonLate_iff (hyear : 0 ≤ year) :
    Computus.MoonLate year ↔ age year = 24 ∨ age year = 25 ∧ 11 < goldenNumber year := by
  have hmoon := moon_eq hyear
  have hage := age_bounds year
  unfold Computus.MoonLate goldenNumber
  omega

theorem fullMoon_eq (hyear : 0 ≤ year) :
    fullMoon year = 21 + (Computus.ofYear year).moon - if Computus.MoonLate year then 1 else 0 := by
  have hmoon := moon_eq hyear
  have hage := age_bounds year
  unfold fullMoon epact
  by_cases hlate : Computus.MoonLate year
  · rw [if_pos hlate, if_pos ((moonLate_iff hyear).1 hlate)]
    unfold Computus.MoonLate at hlate
    split <;> omega
  · rw [if_neg hlate, if_neg fun h => hlate ((moonLate_iff hyear).2 h)]
    unfold Computus.MoonLate at hlate
    split <;> omega

/-- The rule comes to the week after the full moon. -/
theorem day_bounds (hyear : 0 ≤ year) :
    fullMoon year < (Computus.ofYear year).day ∧ (Computus.ofYear year).day ≤ fullMoon year + 7 := by
  have hsunday := Computus.sunday_bounds year
  have hlate := Computus.late_eq year
  rw [fullMoon_eq hyear]
  unfold Computus.day
  by_cases hmoon : Computus.MoonLate year
  · rw [if_pos hmoon]
    by_cases hlast : (Computus.ofYear year).sunday = 6
    · rw [if_pos ⟨hlast, hmoon⟩] at hlate
      omega
    · rw [if_neg fun h => hlast h.1] at hlate
      omega
  · rw [if_neg hmoon]
    rw [if_neg fun h => hmoon h.2] at hlate
    omega

end Epact

/--
**Easter by the epact.**

From year 0 to the end of the calendar the rule comes to the first Sunday after the full moon that
the epact of the year tells, between 22 March and 25 April.
-/
theorem easter?_eq_sunday_after_fullMoon {year : Int} (hyear : 0 ≤ year ∧ year ≤ maxYear) :
    ∃ moon d : Date, moon.number = Civil.march year (Epact.fullMoon year) ∧
      easter? year = some d ∧ d.year = year ∧ Computus.IsEasterDay d ∧
      d.weekday = .sun ∧ moon < d ∧ ∀ e : Date, e.weekday = .sun → moon < e → d ≤ e := by
  have hall : minYear ≤ year ∧ year ≤ maxYear := by
    unfold minYear
    omega
  obtain ⟨d, hd, hnumber, hdate, hday⟩ := Computus.exists_easter? hall
  have hweekday := Computus.weekday_march_day year
  rw [if_pos (.inl hyear.1), ← hnumber] at hweekday
  obtain ⟨hafter, hbefore⟩ := Epact.day_bounds hyear.1
  have hmoon := Civil.march_eq year (Epact.fullMoon year)
  rw [Civil.march_eq] at hnumber
  have hfirst := Computus.day_bounds year
  have hlast := d.le_last
  refine ⟨⟨Civil.march year (Epact.fullMoon year), by omega, by omega⟩, d, rfl, hd, hdate, hday,
    Date.weekday_eq_iff.2 hweekday, Date.lt_iff.2 ?_, fun e he hlt => ?_⟩
  · dsimp only
    omega
  · have hsunday := Date.weekday_eq_iff.1 he
    change (e.number + 5) % 7 = 6 at hsunday
    rw [Date.lt_iff] at hlt
    rw [Date.le_iff]
    dsimp only at hlt
    omega

/--
In 2049 an age of 25 days is moved on, which puts the full moon on 17 April. Easter is the day after,
on which the moon would have been full without it.
-/
theorem easter?_eq_sunday_after_fullMoon_2049 :
    (Epact.age 2049 = 25 ∧ Epact.fullMoon 2049 = 48) ∧
      ∃ moon d : Date, moon.number = Civil.march 2049 (Epact.fullMoon 2049) ∧
        easter? 2049 = some d ∧ d.year = 2049 ∧ Computus.IsEasterDay d ∧
        d.weekday = .sun ∧ moon < d ∧ ∀ e : Date, e.weekday = .sun → moon < e → d ≤ e :=
  ⟨by decide, easter?_eq_sunday_after_fullMoon (by decide)⟩

end OpeningHours
