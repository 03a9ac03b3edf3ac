import OpeningHours.Calendar.Instant
import OpeningHours.Calendar.IsoWeek
import OpeningHours.Holiday
import OpeningHours.Rule.TimeSpan

/-!
# Settings

What the hours of a place depend on besides its rules: the holidays, the times of
the sun and the numbering of weeks, as functions of the date, with the coordinates
and the locale that are handed on to them, and how far a search may go. A setting
that says nothing knows no holidays, has the sun keep fixed hours, and counts weeks
by ISO 8601.
-/

namespace OpeningHours

/-- A place on the globe, in degrees. -/
structure Coordinates where
  lat : Float
  lon : Float

/-- The minute of an event when nothing better is known. -/
def SolarEvent.fixedMinute : SolarEvent → Nat
  | dawn => clockMinute 5 30
  | sunrise => clockMinute 6 0
  | sunset => clockMinute 18 0
  | dusk => clockMinute 18 30

/-- How many weeks a search looks at when nothing else is asked for. -/
def defaultHorizon : UInt32 := 100

/-- What the hours of a place depend on besides its rules. -/
structure Setting where
  /-- The name of the holiday on a date, if it is one. -/
  holiday? : Date → HolidayKind → Option String := fun _ _ => none
  /-- The minute of the day at which an event of the sun takes place, if it does. -/
  solar? : Date → Option Coordinates → SolarEvent → Option (Fin 1440) := fun _ _ _ => none
  /-- The number of the week of a date, by the custom of a locale. -/
  week : Date → Option String → Nat := fun d _ => d.isoWeek
  coordinates? : Option Coordinates := none
  locale? : Option String := none
  /-- How many weeks after the first a search looks at. -/
  horizon : Nat := defaultHorizon.toNat

namespace Setting

/-- The minute of an event of the sun, by the fixed hours if nothing else is known. -/
def sunMinute (env : Setting) (d : Date) (event : SolarEvent) : Nat :=
  match env.solar? d env.coordinates? event with
  | some minute => minute
  | none => event.fixedMinute

/-- Whether a date is a holiday. -/
def isHoliday (env : Setting) (d : Date) (kind : HolidayKind) : Bool := (env.holiday? d kind).isSome

/-- The number of the week of a date. -/
def weekOf (env : Setting) (d : Date) : Nat := env.week d env.locale?

/--
The number of weeks of the year before that of a date, read off its last week. Going
back as many weeks as the date's own number leads there; 52 stands for a year that
lies outside the calendar.
-/
def weeksOfYearBefore (env : Setting) (d : Date) : Nat :=
  match d.add? (-(7 * (env.weekOf d : Int))) with
  | some last => env.weekOf last
  | none => 52

end Setting

end OpeningHours
