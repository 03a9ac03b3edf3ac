import OpeningHours.Rule.Basic
import OpeningHours.Setting
import OpeningHours.Timeline.Basic

/-!
# Spans of minutes, as rules give them to a day

On a given day every span of time of a rule becomes a pair of minutes counted from
midnight. A span that ends at or before its start runs into the next day, and no
span is longer than 24 hours, so its end stays below midnight of the third day.

At midnight a span splits into the part of its own day and the part of the next one.
-/

namespace OpeningHours

/-- Minutes from `start` up to and without `stop`, counted from midnight of some day. -/
@[ext] structure MinuteSpan where
  start : Nat
  stop : Nat
  deriving DecidableEq

namespace MinuteSpan

/-- Whether a minute lies in the span. -/
def contains (s : MinuteSpan) (minute : Nat) : Bool :=
  decide (s.start ≤ minute) && decide (minute < s.stop)

/-- The span itself, unless it has no minute. -/
def nonempty? (s : MinuteSpan) : Option MinuteSpan := if s.start < s.stop then some s else none

/-- The part of a span before midnight. -/
def today? (s : MinuteSpan) : Option MinuteSpan :=
  nonempty? ⟨s.start, min s.stop minutesPerDay⟩

/-- The part of a span in the day after, counted from that day's midnight. -/
def tomorrow? (s : MinuteSpan) : Option MinuteSpan :=
  nonempty? ⟨s.start - minutesPerDay, min s.stop (2 * minutesPerDay) - minutesPerDay⟩

end MinuteSpan

/-- The minute that a time stands for on a date: at most 48:00 when fixed, within the day otherwise. -/
def TimePoint.minuteOn (env : Setting) (d : Date) : TimePoint → Nat
  | fixed minute => min minute.toNat (2 * minutesPerDay)
  | solar event offset =>
    min (max ((env.sunMinute d event : Int) + offset.toInt) 0).toNat minutesPerDay

/-- The minutes that a span of time stands for on a date. -/
def TimeSpan.minutesOn (env : Setting) (d : Date) (s : TimeSpan) : MinuteSpan :=
  let start := s.start.minuteOn env d
  let stop := match s.stop? with
    | none => start + 1
    | some point =>
      let stop := point.minuteOn env d
      if stop ≤ start then stop + minutesPerDay else stop
  ⟨start, min stop (start + minutesPerDay)⟩

/-- The spans of minutes of a rule on a date. A rule without spans of time has the whole day. -/
def Rule.spansOn (r : Rule) (env : Setting) (d : Date) : List MinuteSpan :=
  if r.times.isEmpty then [⟨0, minutesPerDay⟩] else r.times.map (·.minutesOn env d)

/-- What a rule says of its minutes. -/
def Rule.label (r : Rule) : Label :=
  { status := r.status, comment? := r.comment?, fallback := r.isFallback, rule? := some r.id }

end OpeningHours
