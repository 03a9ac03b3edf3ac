import OpeningHours.Calendar.Civil

/-!
# Dates

A `Date` is a day number inside the supported calendar, which runs from 1 January
of year -262143 to 31 December of year 262142. The bounds are part of the type, so
every date that exists can be written, and every operation that may leave the
calendar answers an option.

The order of dates is the order of their numbers.
-/

namespace OpeningHours

/-- The first year of the supported calendar. -/
def minYear : Int := -262143

/-- The last year of the supported calendar. -/
def maxYear : Int := 262142

/-- A day of the supported calendar, by its number. -/
@[ext] structure Date where
  /-- Days since 1 January of year 0. -/
  number : Int
  first_le : -95745764 ≤ number
  le_last : number ≤ 95745764
  deriving DecidableEq

namespace Date

/-- The calendar starts with its first year and ends with its last. -/
theorem bounds_eq :
    Civil.daysBeforeYear minYear = -95745764 ∧ Civil.daysBeforeYear (maxYear + 1) - 1 = 95745764 := by
  decide

instance : LE Date := ⟨fun a b => a.number ≤ b.number⟩
instance : LT Date := ⟨fun a b => a.number < b.number⟩
instance (a b : Date) : Decidable (a ≤ b) := inferInstanceAs (Decidable (a.number ≤ b.number))
instance (a b : Date) : Decidable (a < b) := inferInstanceAs (Decidable (a.number < b.number))

theorem le_iff {a b : Date} : a ≤ b ↔ a.number ≤ b.number := Iff.rfl
theorem lt_iff {a b : Date} : a < b ↔ a.number < b.number := Iff.rfl

/-- The later of two dates. -/
def later (a b : Date) : Date := if a ≤ b then b else a

/-- The earlier of two dates. -/
def earlier (a b : Date) : Date := if a ≤ b then a else b

/-- The date with a number, if the calendar has one. -/
def ofNumber? (number : Int) : Option Date :=
  if h : -95745764 ≤ number ∧ number ≤ 95745764 then some ⟨number, h.1, h.2⟩ else none

theorem ofNumber?_eq_some_iff {number : Int} {d : Date} :
    ofNumber? number = some d ↔ d.number = number := by
  unfold ofNumber?
  have h₁ := d.first_le
  have h₂ := d.le_last
  split
  · simp only [Option.some.injEq]
    constructor
    · rintro rfl; rfl
    · intro h; ext; exact h.symm
  · simp only [reduceCtorEq, false_iff]
    omega

theorem ofNumber?_eq_none_iff {number : Int} :
    ofNumber? number = none ↔ ¬∃ d : Date, d.number = number := by
  rw [Option.eq_none_iff_forall_ne_some, not_exists]
  exact forall_congr' fun d => not_congr ofNumber?_eq_some_iff

/-- The date a number of days later, or earlier when the number is negative. -/
def add? (d : Date) (days : Int) : Option Date := ofNumber? (d.number + days)

theorem add?_eq_some_iff {d e : Date} {days : Int} :
    d.add? days = some e ↔ e.number = d.number + days := ofNumber?_eq_some_iff

theorem exists_add? {d : Date} {days : Int}
    (h : -95745764 ≤ d.number + days ∧ d.number + days ≤ 95745764) : ∃ e, d.add? days = some e :=
  ⟨⟨d.number + days, h.1, h.2⟩, add?_eq_some_iff.2 rfl⟩

/-- The year of a date. -/
def year (d : Date) : Int := Civil.yearOf d.number

/-- The place of a date in its year, 1 January being 0. -/
def dayOfYear (d : Date) : Nat := Civil.dayOfYear d.number

/-- The month of a date, 1 to 12. -/
def month (d : Date) : Nat := Civil.monthOf (Civil.isLeap d.year) d.dayOfYear

/-- The day of the month, from 1. -/
def day (d : Date) : Nat :=
  d.dayOfYear - Civil.daysBeforeMonth (Civil.isLeap d.year) d.month + 1

/-- The day of the week. -/
def weekday (d : Date) : Weekday := Civil.weekdayOf d.number

theorem weekday_index (d : Date) : (d.weekday.index : Int) = (d.number + 5) % 7 :=
  Civil.weekdayOf_index d.number

theorem weekday_eq_iff {d : Date} {w : Weekday} :
    d.weekday = w ↔ (d.number + 5) % 7 = w.index := Civil.weekdayOf_eq_iff

/-- The date of a year, a month and a day of the month, if there is one. -/
def ofYmd? (year : Int) (month day : Nat) : Option Date :=
  if 1 ≤ month ∧ month ≤ 12 ∧ 1 ≤ day ∧ day ≤ Civil.monthLength (Civil.isLeap year) month then
    ofNumber? (Civil.numberOf year month day)
  else
    none

end Date

/-- A month of a year. -/
@[ext] structure YearMonth where
  year : Int
  month : Nat
  deriving DecidableEq

/-- The month that a date lies in. -/
def Date.yearMonth (d : Date) : YearMonth := ⟨d.year, d.month⟩

/--
The number of days in a month, for every month whose end lies inside the calendar.
The last month of all has none: its end would be the day before a date that does
not exist.
-/
def monthLength? (year : Int) (month : Nat) : Option Nat :=
  if 1 ≤ month ∧ month ≤ 12 ∧ minYear ≤ year ∧ year ≤ maxYear ∧ ¬(year = maxYear ∧ month = 12) then
    some (Civil.monthLength (Civil.isLeap year) month)
  else
    none

/-- Which way to look for a day of the week. -/
inductive ShiftDirection where
  | next | previous
  deriving DecidableEq, Inhabited

/-- The number of days from a date to the one that is looked at next. -/
def ShiftDirection.step : ShiftDirection → Int
  | next => 1
  | previous => -1

/-- How a walk from date to date toward a day of the week comes out. -/
inductive WeekdayWalk where
  /-- It has come to a date on that day. -/
  | arrived (d : Date)
  /-- The next step would leave the calendar. -/
  | stranded
  /-- It has taken as many steps as it may and not come to one. -/
  | spent
  deriving DecidableEq

/-- The date that a walk has come to. -/
def WeekdayWalk.date? : WeekdayWalk → Option Date
  | arrived d => some d
  | stranded | spent => none

/--
Walks from a date, day by day and so many steps at most, until it comes to a date on
a day of the week. The date it starts from is not looked at.
-/
def Date.walkToWeekday (d : Date) (target : Weekday) (direction : ShiftDirection) (steps : Nat) :
    WeekdayWalk :=
  match steps with
  | 0 => .spent
  | steps + 1 =>
    match d.add? direction.step with
    | none => .stranded
    | some e => if e.weekday = target then .arrived e else e.walkToWeekday target direction steps

/-- The nearest date on a day of the week, strictly after `d` or strictly before it. -/
def Date.nearestWeekday? (d : Date) (target : Weekday) (direction : ShiftDirection) : Option Date :=
  (d.walkToWeekday target direction 7).date?

end OpeningHours
