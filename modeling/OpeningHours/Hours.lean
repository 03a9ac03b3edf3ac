import OpeningHours.Plan.Text
import OpeningHours.Timetable.Change

/-!
# The hours of a place

The rules of a place and its setting, and the questions that can be put to them.
Every question plans the weeks it needs.
-/

namespace OpeningHours

/-- Rules in their order, and the setting they are read in. -/
structure Hours where
  rules : List Rule
  env : Setting := {}

namespace Hours

/-- The timetable of the week around a date. -/
def timetable (h : Hours) (d : Date) : Except HoursError Timetable :=
  Timetable.around h.rules h.env d

/-- What holds at an instant. -/
def standing (h : Hours) (i : Instant) : Except HoursError Standing := do
  return (← h.timetable i.date).standingAt i

/-- Whether the place is open at an instant. -/
def isOpen (h : Hours) (i : Instant) : Except HoursError Bool := do
  return (← h.standing i).isOpen

/-- The first change after an instant. -/
def nextChange (h : Hours) (i : Instant) : Except HoursError Outlook :=
  ChangeSearch.run h.rules h.env i .forward

/-- The change that brought the status of an instant. -/
def previousChange (h : Hours) (i : Instant) : Except HoursError Outlook :=
  ChangeSearch.run h.rules h.env i .backward

/-- The week around a date as text, given how intervals are written. -/
def weekText (h : Hours) (write : Interval → String) (d : Date) : Except HoursError String := do
  return (← h.timetable d).joined.lines write

end Hours

end OpeningHours
