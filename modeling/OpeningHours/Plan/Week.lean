import OpeningHours.Plan.Selection

/-!
# The plan of a week

A week is seven days in a row, with the day before the first and the day after the
last inside the calendar. Its plan is made as seen from one month: every day takes
in the rules that select it, then what the day before hands on past midnight. For
the first day that is the eve, whose rules are evaluated for this purpose alone.

Rules whose dates lie outside the week are passed over for its seven days at once.
-/

namespace OpeningHours

/-- Seven days in a row, with a day before them and a day after them. -/
@[ext] structure Week where
  first : Date
  eve_ge : -95745764 ≤ first.number - 1
  next_le : first.number + 7 ≤ 95745764
  deriving DecidableEq

namespace Week

/-- The week that starts on a date, if the calendar has room for it. -/
def startingOn? (d : Date) : Option Week :=
  if h : -95745764 ≤ d.number - 1 ∧ d.number + 7 ≤ 95745764 then some ⟨d, h.1, h.2⟩ else none

/-- The date a number of days after the first, up to the day after the last. -/
def date (w : Week) (i : Fin 8) : Date :=
  ⟨w.first.number + i.val, by have := w.first.first_le; omega, by have := w.next_le; omega⟩

/-- The day before the first. -/
def eve (w : Week) : Date :=
  ⟨w.first.number - 1, w.eve_ge, by have := w.first.le_last; omega⟩

/-- The last day. -/
def last (w : Week) : Date := w.date 6

/-- The seven days. -/
def days (w : Week) : List Date := (List.finRange 7).map fun i => w.date i.castSucc

@[simp] theorem length_days (w : Week) : w.days.length = 7 := by simp [days]

/-- The span of the seven days. -/
def span (w : Week) : DaySpan := ⟨w.first, w.last⟩

/-- The instant a number of minutes after midnight of a day; 24:00 is midnight of the next. -/
def instant (w : Week) (i : Fin 7) (minute : Nat) : Instant :=
  if h : minute < minutesPerDay then
    ⟨w.date i.castSucc, minute * 60, by unfold minutesPerDay at h; omega⟩
  else
    .midnight (w.date i.succ)

end Week

/-- The plans of the seven days of a week, as seen from one month. -/
@[ext] structure WeekPlan where
  /-- The month that date ranges are seen from. -/
  seen : YearMonth
  week : Week
  days : List DayPlan
  rules : List Rule
  length_days : days.length = 7

namespace WeekPlan

/-- Every day with what the day before it, the eve for the first, hands on. -/
def linked (eve : DayPlan) (days : List DayPlan) : List DayPlan :=
  List.zipWith (fun before day => (day.receive before.outgoing).settle) (eve :: days) days

/-- The plans of the days of a week from the rules. -/
def daysOf (env : Setting) (w : Week) (selections : List Selection) : List DayPlan :=
  let meeting := selections.filter (·.meets w.span)
  linked (.ofSelections env w.eve selections) (w.days.map fun d => .ofSelections env d meeting)

theorem length_daysOf (env : Setting) (w : Week) (selections : List Selection) :
    (daysOf env w selections).length = 7 := by
  simp [daysOf, linked]

/-- The plan of the week that starts on a date, as seen from a month. -/
def make (rules : List Rule) (first : Date) (seen : YearMonth) (env : Setting) :
    Except HoursError WeekPlan :=
  match Week.startingOn? first with
  | none => .error (.illegalDates (.weekOutOfCalendar first) none)
  | some week => do
    let selections ← rules.mapM (Selection.ofRule seen)
    return {
      seen, week, rules
      days := daysOf env week selections
      length_days := length_daysOf env week selections }

/-- The plan at the place of a weekday. -/
def day (p : WeekPlan) (w : Weekday) : DayPlan :=
  p.days.get ⟨w.index, by rw [p.length_days]; exact w.index.isLt⟩

/-- Whether the day at the place of a weekday lies in the month the plan is seen from. -/
def isInMonth (p : WeekPlan) (w : Weekday) : Bool := (p.day w).date.yearMonth == p.seen

/-- Puts a day in the place of its weekday. -/
def setDay (p : WeekPlan) (d : DayPlan) : WeekPlan :=
  { p with
    days := p.days.set d.weekday.index d
    length_days := by rw [List.length_set]; exact p.length_days }

end WeekPlan

end OpeningHours
