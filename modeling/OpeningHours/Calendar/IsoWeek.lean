import OpeningHours.Calendar.Date

/-!
# ISO 8601 week numbers

A week belongs to the year that holds its Thursday, and its number counts the
Thursdays of that year so far. The Thursday of a date's week may lie outside the
calendar, so it is found as a bare day number.
-/

namespace OpeningHours.Date

/-- The day number of the Thursday in the week of a date. -/
def isoThursday (d : Date) : Int := d.number - (d.weekday.index : Int) + 3

/-- The year to which the week of a date belongs. -/
def isoYear (d : Date) : Int := Civil.yearOf d.isoThursday

/-- The number of the week of a date in its year, from 1. -/
def isoWeek (d : Date) : Nat := Civil.dayOfYear d.isoThursday / 7 + 1

end OpeningHours.Date
