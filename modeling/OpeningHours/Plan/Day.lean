import OpeningHours.Plan.MinuteSpan
import OpeningHours.Timeline.Segment

/-!
# The plan of a day

A day takes in the rules that select it, one after the other, and keeps two
timelines: its own minutes, and the minutes past midnight that it hands on to the
next day. What the day before hands on waits until all rules are in; then it is laid
over the day's own intervals.
-/

namespace OpeningHours

/-- The plan of one day. -/
@[ext] structure DayPlan where
  date : Date
  intervals : Timeline := []
  /-- What the day before has handed on and has not been laid over the day yet. -/
  incoming : Timeline := []
  /-- What the day hands on to the next one. -/
  outgoing : Timeline := []
  deriving DecidableEq

namespace DayPlan

/-- The day of the week. -/
def weekday (day : DayPlan) : Weekday := day.date.weekday

/-- The interval of a rule over a span of minutes. -/
def intervalOf? (r : Rule) (s : MinuteSpan) : Option Interval :=
  (Interval.new? s.start s.stop r.label).toOption

/-- The intervals of a rule before midnight, in the order of its spans. -/
def todayOf (r : Rule) (spans : List MinuteSpan) : List Interval :=
  spans.filterMap fun s => s.today?.bind (intervalOf? r)

/-- The intervals of a rule after midnight, in the order of its spans. -/
def tomorrowOf (r : Rule) (spans : List MinuteSpan) : List Interval :=
  spans.filterMap fun s => s.tomorrow?.bind (intervalOf? r)

/-- What becomes of a timeline when a rule of some kind brings new intervals. -/
def combine (kind : RuleKind) (old : Timeline) (new : List Interval) : Timeline :=
  match kind with
  | .override => new.foldl Timeline.layOver []
  | .additional => new.foldl Timeline.layOver old
  | .fallback => new.foldl Timeline.layUnder old

/-- Takes in a rule that selects the day, with its spans of minutes. -/
def takeIn (day : DayPlan) (r : Rule) (spans : List MinuteSpan) : DayPlan :=
  { day with
    intervals := combine r.kind day.intervals (todayOf r spans)
    outgoing := combine r.kind day.outgoing (tomorrowOf r spans) }

/-- Lines up what the day before hands on. -/
def receive (day : DayPlan) (ivs : List Interval) : DayPlan :=
  { day with incoming := day.incoming ++ ivs }

/-- Lays what the day before handed on over what is there. -/
def settle (day : DayPlan) : DayPlan :=
  { day with intervals := day.incoming.foldl Timeline.layOver day.intervals, incoming := [] }

/-! ## Questions -/

/-- The interval in force from a minute on. -/
def inForce? (day : DayPlan) (minute : Nat) : Option Interval := day.intervals.covering? minute

/-- The interval at a minute: the one in force from it on, or else one that ends there. -/
def at? (day : DayPlan) (minute : Nat) : Option Interval :=
  (day.inForce? minute).or (day.intervals.find? (·.containsClosed minute))

/-- The status at a minute, if any interval has one. -/
def status? (day : DayPlan) (minute : Nat) : Option Status :=
  (day.at? minute).map (·.label.status)

/-- The whole day in segments. -/
def segments (day : DayPlan) : List (Segment Nat) := day.intervals.segments

end DayPlan

end OpeningHours
