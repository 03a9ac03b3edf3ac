/-!
# Days of the week

A week runs Monday to Sunday, and the index of a day counts from Monday. Indices
are what ranges of weekdays and the seven slots of a week are made of, so the two
directions between a day and its index are inverse to each other.
-/

namespace OpeningHours

/-- A day of the week. -/
inductive Weekday where
  | mon | tue | wed | thu | fri | sat | sun
  deriving DecidableEq, Inhabited

namespace Weekday

/-- The seven days in order. -/
def all : List Weekday := [mon, tue, wed, thu, fri, sat, sun]

/-- The place of a day in its week, Monday being 0. -/
def index : Weekday → Fin 7
  | mon => 0
  | tue => 1
  | wed => 2
  | thu => 3
  | fri => 4
  | sat => 5
  | sun => 6

/-- The day at a place of the week. -/
def ofIndex : Fin 7 → Weekday
  | 0 => mon
  | 1 => tue
  | 2 => wed
  | 3 => thu
  | 4 => fri
  | 5 => sat
  | 6 => sun

@[simp] theorem ofIndex_index (w : Weekday) : ofIndex w.index = w := by cases w <;> rfl

@[simp] theorem index_ofIndex (i : Fin 7) : (ofIndex i).index = i := by
  revert i; decide

/-- The three-letter name, in which answers and rules are written. -/
def shortName : Weekday → String
  | mon => "Mon"
  | tue => "Tue"
  | wed => "Wed"
  | thu => "Thu"
  | fri => "Fri"
  | sat => "Sat"
  | sun => "Sun"

/-- The two-letter name, in which a rendered week is written. -/
def abbreviation : Weekday → String
  | mon => "Mo"
  | tue => "Tu"
  | wed => "We"
  | thu => "Th"
  | fri => "Fr"
  | sat => "Sa"
  | sun => "Su"

/-- The full name, in lower case. -/
def fullName : Weekday → String
  | mon => "monday"
  | tue => "tuesday"
  | wed => "wednesday"
  | thu => "thursday"
  | fri => "friday"
  | sat => "saturday"
  | sun => "sunday"

/-- Reads a day from its three-letter or its full name, in any mixture of cases. -/
def ofName? (name : String) : Option Weekday :=
  let word := name.toList.map Char.toLower
  all.find? fun w => word == (w.shortName.toList.map Char.toLower) || word == w.fullName.toList

@[simp] theorem ofName?_shortName (w : Weekday) : ofName? w.shortName = some w := by
  cases w <;> decide

end Weekday

end OpeningHours
