import OpeningHours.Plan.Day
import OpeningHours.Rule.Resolution

/-!
# Which days a rule selects

Seen from a month, the date ranges of a rule become spans of days. The rule selects
a day that lies in one of them, in one of its years and in one of its weeks, and
that is one of its weekdays or one of its holidays; a selector that the rule does
not have selects every day.
-/

namespace OpeningHours

/-- A rule together with the days its date ranges stand for. -/
structure Selection where
  rule : Rule
  spans : List DaySpan

namespace Selection

/-- The first year range of a rule that ends before it starts is an error. -/
def checkYears (r : Rule) : Except HoursError Unit :=
  match r.years.find? (fun years => !decide years.IsLegal) with
  | some years => .error (.illegalYears years.start.toInt years.last (some r.id))
  | none => .ok ()

/-- The spans of the date ranges of a rule, in order; the first range at fault is an error. -/
def spansOf (seen : YearMonth) (r : Rule) : Except HoursError (List DaySpan) :=
  match r.dates.mapM (·.spans seen) with
  | .ok spans => .ok spans.flatten
  | .error fault => .error (.illegalDates fault (some r.id))

/-- A rule seen from a month. Years are checked before dates. -/
def ofRule (seen : YearMonth) (r : Rule) : Except HoursError Selection := do
  checkYears r
  return ⟨r, ← spansOf seen r⟩

/-- Whether the rule's dates have a day in common with a span. -/
def meets (s : Selection) (span : DaySpan) : Bool :=
  !s.rule.hasDates || s.spans.any fun dates => (dates.intersect? span).isSome

/-- Whether the rule selects the weekday of a date, or a holiday that leads to it. -/
def selectsDay (r : Rule) (env : Setting) (d : Date) : Bool :=
  (r.weekdays.isEmpty && r.holidays.isEmpty) ||
    r.weekdays.any (·.contains d.weekday) ||
    r.holidays.any fun h =>
      (d.add? (-h.dayOffset.toInt)).any fun holiday => env.isHoliday holiday h.kind

/-- Whether the rule selects the week of a date. -/
def selectsWeek (r : Rule) (env : Setting) (d : Date) : Bool :=
  r.weeks.isEmpty ||
    (let week := env.weekOf d
     let yearWeeks := env.weeksOfYearBefore d
     r.weeks.any (·.contains week yearWeeks))

/-- Whether the rule selects the year of a date. -/
def selectsYear (r : Rule) (d : Date) : Bool :=
  r.years.isEmpty || r.years.any (·.contains d.year)

/-- Whether the rule selects a day. -/
def selects (s : Selection) (env : Setting) (d : Date) : Bool :=
  selectsYear s.rule d && selectsWeek s.rule env d &&
    (!s.rule.hasDates || s.spans.any (·.contains d)) && selectsDay s.rule env d

/-- Takes the rule into the plan of a day, if it selects the day. -/
def applyTo (env : Setting) (day : DayPlan) (s : Selection) : DayPlan :=
  if s.selects env day.date then day.takeIn s.rule (s.rule.spansOn env day.date) else day

end Selection

/-- The plan of a day from the rules alone, before the day before hands anything on. -/
def DayPlan.ofSelections (env : Setting) (d : Date) (selections : List Selection) : DayPlan :=
  selections.foldl (Selection.applyTo env) { date := d }

end OpeningHours
