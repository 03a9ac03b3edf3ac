import OpeningHours.Calendar.Instant
import OpeningHours.Status

/-!
# Intervals of a day

An interval is a run of minutes of one day, its start included and its stop not,
with a label that says what holds there and which rule says so. It lies inside the
day, and an interval without minutes may stand anywhere but at the very end.

How two intervals lie to each other is told by their closed spans: intervals that
only touch have a point in common. Taking one out of another and joining two are
read off that.
-/

namespace OpeningHours

/-- What an interval says of its minutes, and where that comes from. -/
@[ext] structure Label where
  status : Status
  comment? : Option String := none
  /-- Whether a fallback rule says so. -/
  fallback : Bool := false
  rule? : Option RuleId := none
  deriving DecidableEq, Inhabited

/-- Minutes of a day, from `start` up to and without `stop`, under a label. -/
@[ext] structure Interval where
  start : Nat
  stop : Nat
  label : Label
  start_le_stop : start ≤ stop
  stop_le_day : stop ≤ 1440
  start_lt_day : start < 1440
  deriving DecidableEq

/-- Why two numbers are not the ends of an interval. -/
inductive IntervalFault where
  | startAfterStop (start stop : Nat)
  | pastMidnight (stop : Nat)
  | startAtMidnight
  deriving DecidableEq

namespace IntervalFault

/-- The text of a fault. -/
def message : IntervalFault → String
  | startAfterStop start stop =>
    "interval start " ++ toString start ++ " after end " ++ toString stop
  | pastMidnight stop => "interval end " ++ toString stop ++ " exceeds one day"
  | startAtMidnight => "degenerate interval at end of day"

end IntervalFault

/-- How the closed span of one interval lies to that of another. -/
inductive Placement where
  /-- The spans have no point in common. -/
  | apart
  /-- The first lies within the second. -/
  | within
  /-- The first starts inside the second and stops after it. -/
  | startsIn
  /-- The first stops inside the second and starts before it. -/
  | stopsIn
  /-- The second lies within the first, and is not equal to it. -/
  | around
  deriving DecidableEq

namespace Interval

/-- The interval with these ends, if they are the ends of one. -/
def new? (start stop : Nat) (label : Label) : Except IntervalFault Interval :=
  if h₁ : start ≤ stop then
    if h₂ : stop ≤ 1440 then
      if h₃ : start < 1440 then .ok ⟨start, stop, label, h₁, h₂, h₃⟩
      else .error .startAtMidnight
    else .error (.pastMidnight stop)
  else .error (.startAfterStop start stop)

/-- The interval of a single minute. -/
def ofMinute? (minute : Nat) (label : Label) : Except IntervalFault Interval :=
  new? minute (minute + 1) label

/-- The ends of the interval. -/
def span (iv : Interval) : Nat × Nat := (iv.start, iv.stop)

/-- Whether the interval has no minute. -/
def isEmpty (iv : Interval) : Bool := iv.start == iv.stop

/-- Whether a minute belongs to the interval. -/
def contains (iv : Interval) (minute : Nat) : Bool :=
  decide (iv.start ≤ minute) && decide (minute < iv.stop)

/-- Whether a minute belongs to the interval or is its end. -/
def containsClosed (iv : Interval) (minute : Nat) : Bool :=
  decide (iv.start ≤ minute) && decide (minute ≤ iv.stop)

theorem contains_iff {iv : Interval} {minute : Nat} :
    iv.contains minute = true ↔ iv.start ≤ minute ∧ minute < iv.stop := by
  simp [contains]

theorem contains_eq_false_iff {iv : Interval} {minute : Nat} :
    iv.contains minute = false ↔ minute < iv.start ∨ iv.stop ≤ minute := by
  rw [← Bool.not_eq_true, contains_iff]
  omega

theorem contains_start {iv : Interval} (h : iv.start < iv.stop) : iv.contains iv.start = true :=
  contains_iff.2 ⟨Nat.le_refl _, h⟩

theorem isEmpty_eq_false_iff {iv : Interval} : iv.isEmpty = false ↔ iv.start < iv.stop := by
  have hle := iv.start_le_stop
  rw [isEmpty, beq_eq_false_iff_ne]
  omega

theorem containsClosed_iff {iv : Interval} {minute : Nat} :
    iv.containsClosed minute = true ↔ iv.start ≤ minute ∧ minute ≤ iv.stop := by
  simp [containsClosed]

/-- The same label on other minutes, if there are minutes between the given ends. -/
def piece? (iv : Interval) (start stop : Nat) : Option Interval :=
  if h : start < stop ∧ stop ≤ 1440 then
    some ⟨start, stop, iv.label, by omega, h.2, by omega⟩
  else
    none

/-- The same label on another span, if an interval can have it. -/
def withSpan? (iv : Interval) (start stop : Nat) : Option Interval :=
  (new? start stop iv.label).toOption

/-! ## Two intervals -/

/-- How one interval lies to another. -/
def placement (a b : Interval) : Placement :=
  if b.stop < a.start ∨ a.stop < b.start then .apart
  else if b.containsClosed a.start && b.containsClosed a.stop then .within
  else if a.containsClosed b.start && a.containsClosed b.stop then .around
  else if b.containsClosed a.start then .startsIn
  else .stopsIn

/-- The span that two intervals have in common, bare of labels. -/
def overlap? (a b : Interval) : Option (Nat × Nat) :=
  match a.placement b with
  | .apart => none
  | .within => some a.span
  | .around => some b.span
  | .startsIn => some (a.start, b.stop)
  | .stopsIn => some (b.start, a.stop)

/-- What is left of one interval without the minutes of another. -/
def minus (a b : Interval) : List Interval :=
  match a.placement b with
  | .apart => [a]
  | .within => []
  | .around => (a.piece? a.start b.start).toList ++ (a.piece? b.stop a.stop).toList
  | .startsIn => (a.piece? b.stop a.stop).toList
  | .stopsIn => (a.piece? a.start b.start).toList

/-- Whether two intervals say the same of a place. -/
def agrees (a b : Interval) : Bool :=
  a.label.status == b.label.status && a.label.comment? == b.label.comment?

/-- Two intervals that touch and say the same, as one. -/
def join? (a b : Interval) : Option Interval :=
  if a.agrees b then
    match a.placement b with
    | .apart => none
    | .within => some b
    | .around => some a
    | .startsIn => a.withSpan? b.start a.stop
    | .stopsIn => a.withSpan? a.start b.stop
  else
    none

/-- Whether two intervals have the same ends and status, comments aside. -/
def sameStatusSpan (a b : Interval) : Bool :=
  a.span == b.span && a.label.status == b.label.status

end Interval

end OpeningHours
