import OpeningHours.Calendar.Easter
import OpeningHours.HoursError
import OpeningHours.Rule.DateRange

/-!
# From ranges of dates to spans of days

A range of dates leaves its year open, and often its month. The month in which the
day being looked at lies gives them. Seen from a month, a range becomes one span of
days, or two when it has no year and runs over the turn of the year: the one that
starts in the year of the month and the one that ends in it.

The year is settled first, then the day, then the shift to a weekday, then the shift
by days; so a shifted date may lie in another year than the one it was looked up in.
-/

namespace OpeningHours

/-- The days from one date to another, both included. -/
@[ext] structure DaySpan where
  start : Date
  stop : Date
  deriving DecidableEq

namespace DaySpan

/-- Whether a day lies in the span. -/
def contains (s : DaySpan) (d : Date) : Bool := decide (s.start ≤ d) && decide (d ≤ s.stop)

/-- The days that two spans have in common. -/
def intersect? (a b : DaySpan) : Option DaySpan :=
  let start := a.start.later b.start
  let stop := a.stop.earlier b.stop
  if start ≤ stop then some ⟨start, stop⟩ else none

end DaySpan

/-- Which end of a range a point is, which decides the day of a point without one. -/
inductive RangeEnd where
  | first | last
  deriving DecidableEq

/-- An answer, or the fault that there is none. -/
def orFault {α : Type} (fault : DateFault) : Option α → Except DateFault α
  | some a => .ok a
  | none => .error fault

/-! ## Points -/

namespace DatePoint

/-- The month a point names, or else the one it is given. -/
def monthOr (p : DatePoint) (month : Nat) : Nat := (p.month?.map UInt32.toNat).getD month

/-- The year a point names, if it does. -/
def namedYear? (p : DatePoint) : Option Int := p.year?.map Int32.toInt

/-- The day a point names in a month of the given length, brought inside the month. -/
def dayIn (p : DatePoint) (place : RangeEnd) (length : Nat) : Nat :=
  match p.day?, place with
  | some day, _ => min (max day.toNat 1) length
  | none, .first => 1
  | none, .last => length

/-- The date a point names in a year, before it is shifted. -/
def unshiftedIn (p : DatePoint) (place : RangeEnd) (year : Int) (month : Nat) :
    Except DateFault Date :=
  match p.feast? with
  | some .easter => orFault (.noEaster year) (easter? year)
  | none => do
    let month := p.monthOr month
    let length ← orFault (.noSuchMonth year month) (monthLength? year month)
    let day := p.dayIn place length
    orFault (.noSuchDay year month day) (Date.ofYmd? year month day)

/-- A date shifted as a point asks: to a day of the week and then by days. -/
def shift? (p : DatePoint) (d : Date) : Option Date := do
  let d ← match p.weekdayShift? with
    | some shift => d.nearestWeekday? shift.weekday shift.direction
    | none => some d
  d.add? p.dayOffset.toInt

/-- The date a point stands for in a year, `month` being the month of a point without one. -/
def dateIn (p : DatePoint) (place : RangeEnd) (year : Int) (month : Nat) :
    Except DateFault Date := do
  let d ← p.unshiftedIn place year month
  orFault (.offsetOutOfRange d) (p.shift? d)

/-- A point that names neither a day nor a feast stands for a whole month. -/
def isWholeMonth (p : DatePoint) : Bool := p.day?.isNone && p.feast?.isNone

end DatePoint

/-- The month in which a range open to the end runs out, by the month it starts in. -/
def openRangeMonth (start : YearMonth) : YearMonth :=
  if start.month ≤ 6 then ⟨start.year, 12⟩
  else if start.month ≤ 9 then ⟨start.year + 1, start.month - 4⟩
  else ⟨start.year + 1, start.month - 6⟩

/-- The last day of a range open to the end. -/
def openRangeEnd (start : Date) : Except DateFault Date :=
  let last := openRangeMonth start.yearMonth
  orFault (.noOpenEnd start) do
    let day ← monthLength? last.year last.month
    Date.ofYmd? last.year last.month day

/-! ## Ranges -/

namespace DateRange

/-- The span from one point, in one year, to another point, in another year. -/
def spanIn (start stop : DatePoint) (month : Nat) (startYear stopYear : Int) :
    Except DateFault DaySpan := do
  let first ← start.dateIn .first startYear month
  let last ← stop.dateIn .last stopYear (start.monthOr month)
  return ⟨first, last⟩

/--
The spans between two points. A start without a year and an end without one may run
over the turn of the year, which gives two spans; a start with a year and an end
without one may run into the next year.
-/
def spansBetween (start stop : DatePoint) (seen : YearMonth) : Except DateFault (List DaySpan) :=
  match start.namedYear?, stop.namedYear? with
  | none, some _ => .error .startYearMissing
  | none, none => do
    let span ← spanIn start stop seen.month seen.year seen.year
    if span.start ≤ span.stop then return [span]
    let current ← spanIn start stop seen.month seen.year (seen.year + 1)
    let previous ← spanIn start stop seen.month (seen.year - 1) seen.year
    return [current, previous]
  | some year, none => do
    let span ← spanIn start stop seen.month year year
    if span.start ≤ span.stop then return [span]
    let last ← stop.dateIn .last (year + 1) (start.monthOr seen.month)
    if span.start ≤ last then return [⟨span.start, last⟩]
    .error (.startAfterEnd span.start last)
  | some startYear, some stopYear => do
    let span ← spanIn start stop seen.month startYear stopYear
    if span.start ≤ span.stop then return [span]
    .error (.startAfterEnd span.start span.stop)

/-- The span from a point on. -/
def spanOnward (start : DatePoint) (seen : YearMonth) : Except DateFault DaySpan :=
  match start.namedYear? with
  | none => .error .openRangeWithoutYear
  | some year => do
    let first ← start.dateIn .first year seen.month
    return ⟨first, ← openRangeEnd first⟩

/-- The span of a single point: a day, or a whole month. -/
def spanAlone (point : DatePoint) (seen : YearMonth) : Except DateFault DaySpan := do
  let year := point.namedYear?.getD seen.year
  let first ← point.dateIn .first year seen.month
  if point.isWholeMonth then
    return ⟨first, ← point.dateIn .last year seen.month⟩
  else
    return ⟨first, first⟩

/-- The spans of days that a range stands for, seen from a month. -/
def spans (range : DateRange) (seen : YearMonth) : Except DateFault (List DaySpan) :=
  match range.stop? with
  | some stop => spansBetween range.start stop seen
  | none =>
    if range.openEnded then do return [← spanOnward range.start seen]
    else do return [← spanAlone range.start seen]

end DateRange

end OpeningHours
