import OpeningHours.Plan.Selection
import OpeningHours.Proofs.OwnMonth

/-!
# Weeks counted over the turn of the year

The week of a date has a number and belongs to a year by its Thursday. Here it is told by its
Monday instead: the weeks of a year follow one another from the Monday of its first week, which is
the week of 4 January, to the Monday of the first week of the next year.

A year has 52 weeks or 53. Which of the two is read off the last of them: from any week of the next
year, as many weeks back as the week's own number lead to it. A range of week numbers that wraps
counts its steps on from the end of one year into the next, and knows in this way how many weeks
the first of the two has.
-/

namespace OpeningHours

/-! ## The Mondays of a year -/

namespace Civil

/-- The Monday of the week that 4 January lies in. -/
def firstMonday (year : Int) : Int := daysBeforeYear year + 3 - (daysBeforeYear year + 3 + 5) % 7

/-- The Monday of a week of a year. -/
def isoMonday (year : Int) (week : Nat) : Int := firstMonday year + 7 * (week - 1)

/-- How many weeks a year has. -/
def isoWeeks (year : Int) : Nat := ((firstMonday (year + 1) - firstMonday year) / 7).toNat

/-- The first week of a year is the first with its Thursday in the year. -/
theorem firstMonday_bounds (year : Int) :
    daysBeforeYear year - 3 ≤ firstMonday year ∧ firstMonday year ≤ daysBeforeYear year + 3 := by
  unfold firstMonday
  omega

theorem firstMonday_emod (year : Int) : firstMonday year % 7 = 2 := by
  unfold firstMonday
  omega

/-- The weeks of a year go on to those of the next. -/
theorem firstMonday_succ (year : Int) : firstMonday (year + 1) = firstMonday year + 7 * isoWeeks year := by
  have hmonday := firstMonday_emod year
  have hmonday' := firstMonday_emod (year + 1)
  have hbounds := firstMonday_bounds year
  have hbounds' := firstMonday_bounds (year + 1)
  have hlong := daysBeforeYear_succ year
  unfold yearLength at hlong
  unfold isoWeeks
  split at hlong <;> omega

/-- A year that starts or ends with a Thursday. -/
def IsLongYear (year : Int) : Prop :=
  (daysBeforeYear year + 5) % 7 = Weekday.thu.index.val ∨
    (daysBeforeYear (year + 1) - 1 + 5) % 7 = Weekday.thu.index.val

/-- A year has as many weeks as Thursdays: 53 if a Thursday starts or ends it, and 52 otherwise. -/
theorem isoWeeks_cases (year : Int) :
    isoWeeks year = 52 ∧ ¬IsLongYear year ∨ isoWeeks year = 53 ∧ IsLongYear year := by
  have hsucc := daysBeforeYear_succ year
  unfold yearLength at hsucc
  unfold isoWeeks IsLongYear firstMonday
  dsimp only [Weekday.index]
  split at hsucc <;> omega

theorem isoMonday_succ (year : Int) {week : Nat} :
    isoMonday (year + 1) week = isoMonday year (isoWeeks year + week) := by
  unfold isoMonday
  rw [firstMonday_succ]
  omega

end Civil

namespace Date

variable {d e : Date} {year : Int} {week : Nat}

/-- The number of a week is its place among the weeks of its year. -/
theorem mondayNumber_eq_isoMonday (d : Date) :
    d.mondayNumber = Civil.isoMonday d.isoYear d.isoWeek ∧
      1 ≤ d.isoWeek ∧ d.isoWeek ≤ Civil.isoWeeks d.isoYear := by
  have hlow := Civil.daysBeforeYear_yearOf_le d.isoThursday
  have hhigh := Civil.lt_daysBeforeYear_succ_yearOf d.isoThursday
  have hfirst := Civil.firstMonday_bounds d.isoYear
  have hfirst' := Civil.firstMonday_bounds (d.isoYear + 1)
  have hmonday := Civil.firstMonday_emod d.isoYear
  have hsucc := Civil.firstMonday_succ d.isoYear
  have hindex := d.weekday_index
  unfold mondayNumber Civil.isoMonday isoWeek Civil.dayOfYear
  unfold isoYear at hfirst hfirst' hmonday hsucc ⊢
  unfold isoThursday at *
  omega

/-- A week among the weeks of a year belongs to this year and has its place as its number. -/
theorem isoWeek_of_mondayNumber (hweek : 1 ≤ week ∧ week ≤ Civil.isoWeeks year)
    (h : d.mondayNumber = Civil.isoMonday year week) : d.isoYear = year ∧ d.isoWeek = week := by
  have hfirst := Civil.firstMonday_bounds year
  have hfirst' := Civil.firstMonday_bounds (year + 1)
  have hsucc := Civil.firstMonday_succ year
  have hindex := d.weekday_index
  have hyear : d.isoYear = year := by
    refine Civil.yearOf_eq ?_ ?_
    · unfold mondayNumber Civil.isoMonday at h
      unfold isoThursday
      omega
    · unfold mondayNumber Civil.isoMonday at h
      unfold isoThursday
      omega
  obtain ⟨hmonday, _⟩ := d.mondayNumber_eq_isoMonday
  rw [hyear, h] at hmonday
  unfold Civil.isoMonday at hmonday
  exact ⟨hyear, by omega⟩

/-- Going back as many weeks as the number of a week leads to the last week of the year before. -/
theorem isoWeek_of_add? (h : d.add? (-(7 * (d.isoWeek : Int))) = some e) :
    e.isoYear = d.isoYear - 1 ∧ e.isoWeek = Civil.isoWeeks (d.isoYear - 1) := by
  obtain ⟨hmonday, _⟩ := d.mondayNumber_eq_isoMonday
  have hback : e.mondayNumber = d.mondayNumber + 7 * -(d.isoWeek : Int) := by
    refine mondayNumber_of_weeks ?_
    rw [add?_eq_some_iff] at h
    omega
  have hsucc := Civil.firstMonday_succ (d.isoYear - 1)
  have hweeks := Civil.isoWeeks_cases (d.isoYear - 1)
  rw [Int.sub_add_cancel] at hsucc
  refine isoWeek_of_mondayNumber ⟨by omega, Nat.le_refl _⟩ ?_
  unfold Civil.isoMonday at *
  omega

/-- The first day of the calendar is a Thursday, so that all weeks of the calendar have theirs in it
or after it. -/
theorem first_le_isoThursday (d : Date) : -95745764 ≤ d.isoThursday := by
  have hfirst := d.first_le
  have hindex := d.weekday_index
  unfold isoThursday
  omega

/-- No week of the calendar belongs to a year before the first. -/
theorem firstYear_le_isoYear (d : Date) : -262143 ≤ d.isoYear := by
  have hfirst := d.first_le_isoThursday
  have hyear := Civil.lt_daysBeforeYear_succ_yearOf d.isoThursday
  rcases Int.lt_or_le d.isoYear (-262143) with hbefore | hafter
  · have hmono := Civil.daysBeforeYear_mono (Int.add_one_le_of_lt hbefore)
    have hstart : Civil.daysBeforeYear (-262143) = -95745764 := rfl
    unfold isoYear at hmono
    omega
  · exact hafter

/-- The weeks before a week in its year have dates. -/
theorem exists_isoWeek_eq (hweek : 1 ≤ week) (h : week ≤ e.isoWeek) :
    ∃ d : Date, d.isoYear = e.isoYear ∧ d.isoWeek = week := by
  rcases Nat.eq_or_lt_of_le h with rfl | hlt
  · exact ⟨e, rfl, rfl⟩
  · -- the Thursday of the week, which lies in the year and before the date
    obtain ⟨hmonday, _, hlast⟩ := e.mondayNumber_eq_isoMonday
    have hstart : -95745764 ≤ Civil.daysBeforeYear e.isoYear :=
      Civil.daysBeforeYear_mono e.firstYear_le_isoYear
    have hbounds := Civil.firstMonday_bounds e.isoYear
    have hmod := Civil.firstMonday_emod e.isoYear
    have hbefore := e.le_last
    unfold mondayNumber at hmonday
    refine ⟨⟨Civil.isoMonday e.isoYear week + 3, ?_, ?_⟩, isoWeek_of_mondayNumber ⟨hweek, by omega⟩ ?_⟩
    · unfold Civil.isoMonday
      omega
    · unfold Civil.isoMonday at *
      omega
    · unfold mondayNumber Civil.isoMonday
      dsimp only
      omega

end Date

/-! ## The weeks of the year before -/

namespace Setting

variable {env : Setting} {d e : Date}

theorem weeksOfYearBefore_eq (hiso : ∀ d, env.weekOf d = d.isoWeek)
    (h : d.add? (-(7 * (d.isoWeek : Int))) = some e) :
    env.weeksOfYearBefore d = Civil.isoWeeks (d.isoYear - 1) := by
  obtain ⟨_, hweek⟩ := Date.isoWeek_of_add? h
  unfold weeksOfYearBefore
  rw [hiso, h]
  dsimp only
  rw [hiso, hweek]

/--
**The weeks of the year before are counted right.**

Weeks are numbered by ISO 8601. From a date, go back as many weeks as its week number says; if the
calendar reaches that far back, the number found there is how many weeks the year has before the
one that the week of the date belongs to. That is 53 if the year starts or ends with a Thursday,
and 52 otherwise, and the dates of the year have the week numbers from 1 to it.
-/
theorem weeksOfYearBefore_counts (hiso : ∀ d, env.weekOf d = d.isoWeek)
    (hback : (d.add? (-(7 * (d.isoWeek : Int)))).isSome = true) :
    env.weeksOfYearBefore d = Civil.isoWeeks (d.isoYear - 1) ∧
    (env.weeksOfYearBefore d = 52 ∧ ¬Civil.IsLongYear (d.isoYear - 1) ∨
      env.weeksOfYearBefore d = 53 ∧ Civil.IsLongYear (d.isoYear - 1)) ∧
    ∀ week, (∃ e : Date, e.isoYear = d.isoYear - 1 ∧ e.isoWeek = week) ↔
      1 ≤ week ∧ week ≤ env.weeksOfYearBefore d := by
  obtain ⟨last, hlast⟩ := Option.isSome_iff_exists.1 hback
  obtain ⟨hyear, hweek⟩ := Date.isoWeek_of_add? hlast
  rw [weeksOfYearBefore_eq hiso hlast]
  refine ⟨rfl, Civil.isoWeeks_cases _, fun week => ?_⟩
  constructor
  · intro hgiven
    obtain ⟨e, he, rfl⟩ := hgiven
    rw [← he]
    exact e.mondayNumber_eq_isoMonday.2
  · intro hgiven
    obtain ⟨hfirst, hle⟩ := hgiven
    rw [← hyear]
    exact Date.exists_isoWeek_eq hfirst (hweek ▸ hle)

/-- Monday, 4 January 2021, with which the year 2021 of weeks starts. -/
def newYearMonday : Date := ⟨738159, by decide, by decide⟩

/-- The year before this one has 53 weeks. -/
theorem weeksOfYearBefore_counts_longYear :
    (∀ d, ({} : Setting).weekOf d = d.isoWeek) ∧
      (newYearMonday.add? (-(7 * (newYearMonday.isoWeek : Int)))).isSome = true ∧
      ({} : Setting).weeksOfYearBefore newYearMonday = 53 := by
  have hiso : ∀ d, ({} : Setting).weekOf d = d.isoWeek := fun _ => rfl
  have hback : (newYearMonday.add? (-(7 * (newYearMonday.isoWeek : Int)))).isSome = true := by decide
  obtain ⟨hweeks, _⟩ := weeksOfYearBefore_counts hiso hback
  exact ⟨hiso, hback, hweeks.trans (by decide)⟩

end Setting

/-! ## Ranges that wrap -/

namespace WeekRange

variable {range : WeekRange} {env : Setting} {d : Date}

/-- A range takes every week that comes a multiple of its step after its start. -/
theorem contains_eq_true_iff {week yearWeeks : Nat} :
    range.contains week yearWeeks = true ↔
      ∃ weeks, range.distance? week yearWeeks = some weeks ∧ max range.step.toNat 1 ∣ weeks := by
  unfold contains
  rw [Option.any_eq_true]
  refine exists_congr fun weeks => and_congr_right fun _ => ?_
  rw [beq_iff_eq, Nat.dvd_iff_mod_eq_zero]

theorem distance?_of_start_le {week yearWeeks : Nat} (hwrap : range.stop.toNat < range.start.toNat)
    (h : range.start.toNat ≤ week) :
    range.distance? week yearWeeks = some (week - range.start.toNat) := by
  unfold distance?
  dsimp only
  rw [if_neg (Nat.not_le.2 hwrap), if_pos h]

theorem distance?_of_le_stop {week yearWeeks : Nat} (hwrap : range.stop.toNat < range.start.toNat)
    (h : week ≤ range.stop.toNat) :
    range.distance? week yearWeeks = some (yearWeeks - range.start.toNat + week) := by
  unfold distance?
  dsimp only
  rw [if_neg (Nat.not_le.2 hwrap), if_neg (by omega), if_pos h]

theorem distance?_of_outside {week yearWeeks : Nat} (h : range.stop.toNat < week)
    (h' : week < range.start.toNat) : range.distance? week yearWeeks = none := by
  unfold distance?
  dsimp only
  rw [if_neg (by omega), if_neg (by omega), if_neg (by omega)]

/--
**A range that wraps steps on through the turn of the year.**

Weeks are numbered by ISO 8601, and the range ends with a lower number than it starts with. Let a
year have a week with the number of the start. A date in this week or after it in the year, or in a
week of the next year up to the end of the range, comes some whole weeks after that week, counted
from Monday to Monday; and it is in the range exactly when they are a multiple of the step. Week
numbers between the end and the start are not in the range.
-/
theorem contains_wrapping_iff (hiso : ∀ d, env.weekOf d = d.isoWeek)
    (hwrap : range.stop.toNat < range.start.toNat) :
    (∀ year d, range.start.toNat ≤ Civil.isoWeeks year →
      (d.isoYear = year ∧ range.start.toNat ≤ d.isoWeek ∨
        d.isoYear = year + 1 ∧ d.isoWeek ≤ range.stop.toNat ∧
          (d.add? (-(7 * (d.isoWeek : Int)))).isSome = true) →
      ∃ weeks : Nat,
        d.mondayNumber = Civil.isoMonday year range.start.toNat + 7 * weeks ∧
        (range.contains (env.weekOf d) (env.weeksOfYearBefore d) = true ↔
          max range.step.toNat 1 ∣ weeks)) ∧
    ∀ d, range.stop.toNat < d.isoWeek → d.isoWeek < range.start.toNat →
      range.contains (env.weekOf d) (env.weeksOfYearBefore d) = false := by
  refine ⟨fun year d hlong hd => ?_, fun d hafter hbefore => ?_⟩
  · obtain ⟨hmonday, _⟩ := d.mondayNumber_eq_isoMonday
    rw [hiso]
    rcases hd with ⟨hyear, hstart⟩ | ⟨hyear, hstop, hback⟩
    · refine ⟨d.isoWeek - range.start.toNat, ?_, ?_⟩
      · rw [hmonday, hyear]
        unfold Civil.isoMonday
        omega
      · rw [contains_eq_true_iff, distance?_of_start_le hwrap hstart]
        simp
    · -- the week before the first of the next year tells how many weeks this one has
      obtain ⟨e, he⟩ := Option.isSome_iff_exists.1 hback
      have hbefore : env.weeksOfYearBefore d = Civil.isoWeeks year := by
        rw [Setting.weeksOfYearBefore_eq hiso he, hyear, Int.add_sub_cancel]
      refine ⟨Civil.isoWeeks year - range.start.toNat + d.isoWeek, ?_, ?_⟩
      · rw [hmonday, hyear, Civil.isoMonday_succ]
        unfold Civil.isoMonday
        omega
      · rw [contains_eq_true_iff, hbefore, distance?_of_le_stop hwrap hstop]
        simp
  · rw [← Bool.not_eq_true, contains_eq_true_iff, hiso, distance?_of_outside hafter hbefore]
    simp

/-- Every second week from week 52 to week 3. -/
def midwinter : WeekRange := { start := 52, stop := 3, step := 2 }

/-- The year 2020 has 53 weeks, so that the first week of 2021 is two weeks after week 52. -/
theorem contains_wrapping_iff_longYear :
    midwinter.contains (({} : Setting).weekOf ⟨738159, by decide, by decide⟩)
      (({} : Setting).weeksOfYearBefore ⟨738159, by decide, by decide⟩) = true := by
  obtain ⟨hinside, _⟩ := @contains_wrapping_iff midwinter {} (fun _ => rfl) (by decide)
  obtain ⟨weeks, hmonday, hiff⟩ := hinside 2020 ⟨738159, by decide, by decide⟩ (by decide) (by decide)
  have htwo : weeks = 2 := by
    have hnumber : (738159 : Int) = 738145 + 7 * weeks := hmonday
    omega
  rw [hiff, htwo]
  decide

end WeekRange

end OpeningHours
