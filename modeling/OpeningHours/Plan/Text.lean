import OpeningHours.Plan.Week

/-!
# Plans as text

One line a day, such as `Mo 2021-06-07: 12:00-14:00 open, 17:00-24:00 open`. The
long form adds to every interval the rule it comes from.
-/

namespace OpeningHours

/-- An interval with its hours, status and comment. -/
def Interval.brief (iv : Interval) : String :=
  let comment := match iv.label.comment? with
    | some comment => " \"" ++ comment ++ "\""
    | none => ""
  clockText iv.start ++ "-" ++ clockText iv.stop ++ " " ++ iv.label.status.word ++ comment

/-- An interval with its rule as well. -/
def Interval.full (iv : Interval) : String :=
  let rule := match iv.label.rule? with
    | some id => " [rule " ++ id.text ++ "]"
    | none => ""
  iv.brief ++ rule ++ (if iv.label.fallback then " (fallback)" else "")

/-- The line of a day, given how its intervals are written. -/
def DayPlan.line (write : Interval → String) (day : DayPlan) : String :=
  let body :=
    if day.intervals.isEmpty then "closed"
    else String.intercalate ", " (day.intervals.map write)
  day.weekday.abbreviation ++ " " ++ day.date.toText ++ ": " ++ body

/-- The lines of a week, given how its intervals are written. -/
def WeekPlan.lines (write : Interval → String) (p : WeekPlan) : String :=
  String.intercalate "\n" (p.days.map (DayPlan.line write))

end OpeningHours
