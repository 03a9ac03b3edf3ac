import OpeningHours.Calendar.DateText
import OpeningHours.Status

/-!
# Errors of evaluation

A list of rules cannot be evaluated when a range of dates makes no sense where it is
looked at, when a range of years ends before it starts, or when the week asked for
runs off the calendar. An error names its cause, and the rule at fault where there
is one.
-/

namespace OpeningHours

/-- What is wrong with a range of dates, or with the week to be built. -/
inductive DateFault where
  /-- The end has a year and the start has none. -/
  | startYearMissing
  /-- An open range has no year to start from. -/
  | openRangeWithoutYear
  /-- The range ends before it starts, whatever year the end is put in. -/
  | startAfterEnd (start stop : Date)
  /-- There is no such month inside the calendar. -/
  | noSuchMonth (year : Int) (month : Nat)
  /-- There is no such day. -/
  | noSuchDay (year : Int) (month day : Nat)
  /-- The year has no Easter inside the calendar. -/
  | noEaster (year : Int)
  /-- A shifted date leaves the calendar. -/
  | offsetOutOfRange (base : Date)
  /-- The implicit end of an open range leaves the calendar. -/
  | noOpenEnd (start : Date)
  /-- The week, with the day before it and the day after it, leaves the calendar. -/
  | weekOutOfCalendar (start : Date)
  deriving DecidableEq

/-- The text of a fault. -/
def DateFault.message : DateFault → String
  | startYearMissing => "start year is undefined while end year is defined"
  | openRangeWithoutYear => "open-ended date range requires an explicit start year"
  | startAfterEnd start stop => "start " ++ start.toText ++ " is after end " ++ stop.toText
  | noSuchMonth year month => "invalid month " ++ toString month ++ " in year " ++ toString year
  | noSuchDay year month day =>
    "invalid date " ++ toString year ++ "-" ++ toString month ++ "-" ++ toString day
  | noEaster year => "no easter date for " ++ toString year
  | offsetOutOfRange base => "date offset out of range from " ++ base.toText
  | noOpenEnd start => "no open end for " ++ start.toText
  | weekOutOfCalendar start => "week of " ++ start.toText ++ " is out of the supported calendar"

/-- Why a list of rules cannot be evaluated, and which rule is at fault if one is. -/
inductive HoursError where
  | illegalDates (fault : DateFault) (rule? : Option RuleId)
  | illegalYears (start stop : Int) (rule? : Option RuleId)
  deriving DecidableEq

namespace HoursError

/-- The text of an error. -/
def message : HoursError → String
  | illegalDates fault _ => "illegal date range: " ++ fault.message
  | illegalYears start stop _ =>
    "illegal year range: " ++ toString stop ++ " is before " ++ toString start

/-- The rule at fault, where it is known. -/
def rule? : HoursError → Option RuleId
  | illegalDates _ rule? | illegalYears _ _ rule? => rule?

end HoursError

end OpeningHours
