import OpeningHours.Calendar.Weekday

/-!
# Selectors of years, weeks, weekdays and holidays

The parts of a rule that pick days by a range of numbers. A range of weekdays and a
range of week numbers may wrap around, from Saturday to Tuesday or from week 50 to
week 4; a range of years may not, and one that ends before it starts is illegal.

Steps are counted from the start of the range, and a step of 0 counts as 1.
-/

namespace OpeningHours

/-! ## Weekdays -/

/-- The weekdays from `start` to `stop`, both included. -/
@[ext] structure WeekdayRange where
  start : Weekday
  stop : Weekday
  deriving DecidableEq

namespace WeekdayRange

/-- The range of a single day. -/
def single (day : Weekday) : WeekdayRange := ⟨day, day⟩

/-- How many days the range has after its first. -/
def span (r : WeekdayRange) : Nat := (r.stop.index - r.start.index : Fin 7)

/-- The places of the days of the range in a week, in the order they come. -/
def indices (r : WeekdayRange) : List (Fin 7) :=
  (List.range (r.span + 1)).map fun i => ⟨(r.start.index + i) % 7, Nat.mod_lt _ (by decide)⟩

/-- Whether a day lies in the range. -/
def contains (r : WeekdayRange) (day : Weekday) : Bool := r.indices.contains day.index

end WeekdayRange

/-! ## Years -/

/-- Every `step`-th year from `start` to `stop?`, or for ever when open-ended. -/
@[ext] structure YearRange where
  start : Int32
  /-- The last year; a range without one has its first year only. -/
  stop? : Option Int32 := none
  step : UInt32 := 1
  openEnded : Bool := false
  deriving DecidableEq

namespace YearRange

/-- The range of a single year. -/
def single (year : Int32) : YearRange := { start := year }

/-- All years from one to another. -/
def between (start stop : Int32) : YearRange := { start, stop? := some stop }

/-- The last year of the range, should it have a last year. -/
def last (r : YearRange) : Int := (r.stop?.getD r.start).toInt

/-- A range that ends does not end before it starts. -/
def IsLegal (r : YearRange) : Prop := r.start.toInt ≤ r.last

instance (r : YearRange) : Decidable r.IsLegal := inferInstanceAs (Decidable (_ ≤ _))

/-- Whether a year lies in the range, on one of its steps. -/
def contains (r : YearRange) (year : Int) : Bool :=
  decide (r.start.toInt ≤ year) && (r.openEnded || decide (year ≤ r.last)) &&
    (year - r.start.toInt) % (max r.step.toNat 1 : Nat) == 0

end YearRange

/-! ## Weeks -/

/-- Every `step`-th week number from `start` to `stop`, around the end of the year if needed. -/
@[ext] structure WeekRange where
  start : UInt32
  stop : UInt32
  step : UInt32 := 1
  deriving DecidableEq

namespace WeekRange

/--
How many weeks after the start of the range a week number comes, if it lies in the
range. `yearWeeks` is the number of weeks of the year in which a wrapping range
started; it is needed only for the weeks after the turn of the year.
-/
def distance? (r : WeekRange) (week yearWeeks : Nat) : Option Nat :=
  let start := r.start.toNat
  let stop := r.stop.toNat
  if start ≤ stop then
    if start ≤ week ∧ week ≤ stop then some (week - start) else none
  else if start ≤ week then some (week - start)
  else if week ≤ stop then some (yearWeeks - start + week)
  else none

/-- Whether a week number lies in the range, on one of its steps. -/
def contains (r : WeekRange) (week yearWeeks : Nat) : Bool :=
  (r.distance? week yearWeeks).any fun distance => distance % max r.step.toNat 1 == 0

end WeekRange

/-! ## Holidays -/

/-- Public holidays and school holidays. -/
inductive HolidayKind where
  | publicDay | schoolBreak
  deriving DecidableEq, Inhabited

/-- The word for a kind of holiday. -/
def HolidayKind.word : HolidayKind → String
  | publicDay => "public"
  | schoolBreak => "school"

/-- The days a number of days after a holiday. -/
@[ext] structure HolidaySelector where
  kind : HolidayKind
  dayOffset : Int64 := 0
  deriving DecidableEq

end OpeningHours
