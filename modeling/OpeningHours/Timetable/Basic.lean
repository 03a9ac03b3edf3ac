import OpeningHours.Plan.Week

/-!
# The timetable around a date

A date is looked at in its week, from Monday to Sunday, as seen from its own month.
When the week lies in two months and some rule picks its days by date, the week is
planned a second time as seen from the other month, and every day is read in the
plan of its own month.
-/

namespace OpeningHours

/-- What holds at an instant. -/
@[ext] structure Standing where
  status : Status
  comment? : Option String
  deriving DecidableEq

namespace Standing

/-- Closed, and nothing said about it. -/
def closed : Standing := ⟨.closed, none⟩

/-- What an interval says; closed where there is none. -/
def ofInterval? : Option Interval → Standing
  | some iv => ⟨iv.label.status, iv.label.comment?⟩
  | none => closed

/-- Whether the place is open. -/
def isOpen (s : Standing) : Bool := s.status == .opened

end Standing

/-- The Monday of the week of a date, if the calendar reaches back to it. -/
def Date.monday? (d : Date) : Option Date := d.add? (-(d.weekday.index : Int))

/-- The week around a date, planned once or, where it lies in two months, twice. -/
structure Timetable where
  main : WeekPlan
  /-- The same week as seen from its other month. -/
  other? : Option WeekPlan

namespace Timetable

/-- Whether a week lies in two months. -/
def isSplit (w : Week) : Bool := w.first.yearMonth != w.last.yearMonth

/-- The month at the other end of a week. -/
def otherMonth (w : Week) (seen : YearMonth) : YearMonth :=
  if seen = w.first.yearMonth then w.last.yearMonth else w.first.yearMonth

/-- The timetable of the week around a date. -/
def around (rules : List Rule) (env : Setting) (d : Date) : Except HoursError Timetable :=
  match d.monday? with
  | none => .error (.illegalDates (.weekOutOfCalendar d) none)
  | some monday => do
    let main ← WeekPlan.make rules monday d.yearMonth env
    if isSplit main.week && rules.any Rule.hasDates then
      let other ← WeekPlan.make rules monday (otherMonth main.week d.yearMonth) env
      return ⟨main, some other⟩
    else
      return ⟨main, none⟩

/-- The week. -/
def week (t : Timetable) : Week := t.main.week

/-- A day of the week, read in the plan of its own month. -/
def day (t : Timetable) (w : Weekday) : DayPlan :=
  match t.other? with
  | some other => if t.main.isInMonth w then t.main.day w else other.day w
  | none => t.main.day w

/-- What holds at an instant. At the end of an interval it still counts, if nothing else starts. -/
def standingAt (t : Timetable) (i : Instant) : Standing :=
  .ofInterval? ((t.day i.date.weekday).at? i.minute)

/-- What holds from an instant on. -/
def standingFrom (t : Timetable) (i : Instant) : Standing :=
  .ofInterval? ((t.day i.date.weekday).inForce? i.minute)

/-- Both plans as one: the days outside the month of the first come from the second. -/
def joined (t : Timetable) : WeekPlan :=
  match t.other? with
  | some other =>
    other.days.foldl
      (fun plan day => if t.main.isInMonth day.weekday then plan else plan.setDay day) t.main
  | none => t.main

/-- The segments of one day of the week, as instants. -/
def daySegments (t : Timetable) (i : Fin 7) : List (Segment Instant) :=
  (t.day (t.week.date i.castSucc).weekday).segments.map fun segment =>
    { start := t.week.instant i segment.start
      stop := t.week.instant i segment.stop
      status := segment.status
      comment? := segment.comment? }

/-- The whole week in segments, from Monday 00:00 to the next Monday 00:00. -/
def segments (t : Timetable) : List (Segment Instant) :=
  Segment.coalesce ((List.finRange 7).flatMap t.daySegments)

end Timetable

end OpeningHours
