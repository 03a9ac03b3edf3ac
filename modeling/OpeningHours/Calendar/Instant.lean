import OpeningHours.Calendar.DateText

/-!
# Instants

An instant is a second of a day of the calendar. Instants are compared by the
seconds that have passed since the count of days began, so a later date comes after
every second of an earlier one. There is nothing finer than a second: hours change on
whole minutes, and a part of a second would change no answer.
-/

namespace OpeningHours

/-- The number of minutes in a day. -/
def minutesPerDay : Nat := 1440

/-- The minute of the day at which a clock shows `hours:minutes`; 24:00 and later are allowed. -/
def clockMinute (hours minutes : Nat) : Nat := hours * 60 + minutes

/-- A minute of the day as `HH:MM`. -/
def clockText (minute : Nat) : String :=
  String.ofList (Text.padded 2 (minute / 60) ++ ':' :: Text.padded 2 (minute % 60))

/-- A second of a day. -/
@[ext] structure Instant where
  date : Date
  /-- Seconds since midnight. -/
  second : Nat
  second_lt : second < 86400
  deriving DecidableEq

namespace Instant

/-- Seconds since the count of days began. -/
def seconds (t : Instant) : Int := t.date.number * 86400 + t.second

instance : LT Instant := ⟨fun a b => a.seconds < b.seconds⟩
instance : LE Instant := ⟨fun a b => a.seconds ≤ b.seconds⟩
instance (a b : Instant) : Decidable (a < b) := inferInstanceAs (Decidable (a.seconds < b.seconds))
instance (a b : Instant) : Decidable (a ≤ b) := inferInstanceAs (Decidable (a.seconds ≤ b.seconds))

theorem lt_iff {a b : Instant} : a < b ↔ a.seconds < b.seconds := Iff.rfl
theorem le_iff {a b : Instant} : a ≤ b ↔ a.seconds ≤ b.seconds := Iff.rfl

/-- Two instants with the same count of seconds are the same. -/
theorem eq_of_seconds_eq {a b : Instant} (h : a.seconds = b.seconds) : a = b := by
  have ha := a.second_lt
  have hb := b.second_lt
  unfold seconds at h
  ext
  · omega
  · omega

/-- The instant a clock shows on a date, if it is a time of the day. -/
def ofClock? (date : Date) (hours minutes seconds : Nat) : Option Instant :=
  if h : hours < 24 ∧ minutes < 60 ∧ seconds < 60 then
    some ⟨date, (hours * 60 + minutes) * 60 + seconds, by omega⟩
  else
    none

/-- Midnight at the start of a date. -/
def midnight (date : Date) : Instant := ⟨date, 0, by decide⟩

/-- The minute of the day. -/
def minute (t : Instant) : Nat := t.second / 60

theorem minute_lt (t : Instant) : t.minute < minutesPerDay := by
  have := t.second_lt
  unfold minute minutesPerDay
  omega

/-- An instant as `<date>THH:MM:SS`. -/
def toText (t : Instant) : String :=
  t.date.toText ++ "T" ++ clockText t.minute ++ ":" ++ String.ofList (Text.padded 2 (t.second % 60))

end Instant

end OpeningHours
