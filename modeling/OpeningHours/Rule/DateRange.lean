import OpeningHours.Calendar.Date

/-!
# Ranges of dates, as rules write them

A `DatePoint` leaves out what the reader is to take from the day being looked at:
the year, the month, or the day of the month. It may stand for a movable feast, and
it may be shifted, first to a weekday and then by a number of days.
-/

namespace OpeningHours

/-- A feast whose date differs from year to year. -/
inductive Feast where
  | easter
  deriving DecidableEq, Inhabited

/-- A shift to the nearest such day of the week, strictly after or strictly before. -/
@[ext] structure WeekdayShift where
  weekday : Weekday
  direction : ShiftDirection
  deriving DecidableEq

/-- One end of a range of dates, with parts left open. -/
@[ext] structure DatePoint where
  year? : Option Int32 := none
  month? : Option UInt32 := none
  day? : Option UInt32 := none
  feast? : Option Feast := none
  weekdayShift? : Option WeekdayShift := none
  dayOffset : Int64 := 0
  deriving DecidableEq, Inhabited

namespace DatePoint

/-- A day of a month of a year. -/
def ofYmd (year : Int32) (month day : UInt32) : DatePoint :=
  { year? := some year, month? := some month, day? := some day }

/-- A day of a month, in any year. -/
def ofMonthDay (month day : UInt32) : DatePoint := { month? := some month, day? := some day }

/-- A month, in any year. -/
def ofMonth (month : UInt32) : DatePoint := { month? := some month }

/-- Easter Sunday, in any year. -/
def easter : DatePoint := { feast? := some .easter }

/-- The same point in a given year. -/
def inYear (p : DatePoint) (year : Int32) : DatePoint := { p with year? := some year }

/-- The same point a number of days later. -/
def laterBy (p : DatePoint) (days : Int64) : DatePoint := { p with dayOffset := days }

/-- The same point shifted to a day of the week. -/
def shiftedTo (p : DatePoint) (weekday : Weekday) (direction : ShiftDirection) : DatePoint :=
  { p with weekdayShift? := some ⟨weekday, direction⟩ }

end DatePoint

/-- From one point to another; to the implicit end of an open range; or one point alone. -/
@[ext] structure DateRange where
  start : DatePoint
  stop? : Option DatePoint := none
  /-- Whether a range without an end goes on after its start. -/
  openEnded : Bool := false
  deriving DecidableEq, Inhabited

namespace DateRange

/-- From one point to another. -/
def between (start stop : DatePoint) : DateRange := { start, stop? := some stop }

/-- A single point. -/
def single (point : DatePoint) : DateRange := { start := point }

/-- From a point on. -/
def onward (start : DatePoint) : DateRange := { start, openEnded := true }

end DateRange

end OpeningHours
