/-!
# Spans of time, as rules write them

A time of the day is a fixed minute, which may lie past 24:00, or an event of the
sun with an offset in minutes. A span without an end is a single minute.
-/

namespace OpeningHours

/-- The four times of a day that the sun sets. -/
inductive SolarEvent where
  | dawn | sunrise | sunset | dusk
  deriving DecidableEq, Inhabited

namespace SolarEvent

/-- The four events in the order of the day. -/
def all : List SolarEvent := [dawn, sunrise, sunset, dusk]

/-- The word for an event. -/
def word : SolarEvent → String
  | dawn => "dawn"
  | sunrise => "sunrise"
  | sunset => "sunset"
  | dusk => "dusk"

end SolarEvent

/-- A time of the day. -/
inductive TimePoint where
  /-- Minutes since midnight. -/
  | fixed (minute : UInt32)
  /-- Minutes after an event of the sun. -/
  | solar (event : SolarEvent) (offset : Int32)
  deriving DecidableEq

/-- From one time of the day to another, or a single minute. -/
@[ext] structure TimeSpan where
  start : TimePoint
  stop? : Option TimePoint := none
  deriving DecidableEq

namespace TimeSpan

/-- From one minute of the day to another. -/
def fixed (start stop : UInt32) : TimeSpan := { start := .fixed start, stop? := some (.fixed stop) }

/-- A single minute. -/
def single (minute : UInt32) : TimeSpan := { start := .fixed minute }

/-- From one time to another. -/
def between (start stop : TimePoint) : TimeSpan := { start, stop? := some stop }

end TimeSpan

end OpeningHours
