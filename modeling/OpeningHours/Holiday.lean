import OpeningHours.Calendar.Date
import OpeningHours.Rule.Selector

/-!
# Holidays

A list of holidays says of each which regions keep it. A table of holidays is made
for a country and a part of it. It holds one name for a day and a kind of holiday;
of two holidays of the same kind on the same day the later one gives the name.
-/

namespace OpeningHours

/-- One day of a holiday, with the regions that keep it; none at all means everywhere. -/
@[ext] structure Holiday where
  date : Date
  kind : HolidayKind
  name : String
  regions : List String := []
  deriving DecidableEq

/-- A text with its ASCII letters in lower case. -/
def asciiLower (s : String) : String := String.ofList (s.toList.map Char.toLower)

namespace Holiday

/-- The regions that a country and a part of it answer to, in lower case. -/
def regionsOf (country subregion : Option String) : List String :=
  match country, subregion with
  | some country, some subregion => [asciiLower country, asciiLower (country ++ "-" ++ subregion)]
  | some country, none => [asciiLower country]
  | none, _ => []

/-- Whether a holiday is kept in a country and a part of it. -/
def isKeptIn (h : Holiday) (country subregion : Option String) : Bool :=
  h.regions.isEmpty ||
    h.regions.any fun region => (regionsOf country subregion).contains (asciiLower region)

end Holiday

/-- A day with the name it has as a holiday of some kind. -/
@[ext] structure NamedDay where
  date : Date
  kind : HolidayKind
  name : String
  deriving DecidableEq

/-- Named days, one for a day and a kind. -/
structure HolidayTable where
  days : List NamedDay := []

namespace HolidayTable

/-- Whether a named day is the one for a day and a kind. -/
def isFor (date : Date) (kind : HolidayKind) (h : NamedDay) : Bool :=
  h.date == date && h.kind == kind

/-- Names a day, in place of the name it had. -/
def insert (t : HolidayTable) (date : Date) (kind : HolidayKind) (name : String) : HolidayTable :=
  ⟨⟨date, kind, name⟩ :: t.days.filter fun h => !isFor date kind h⟩

/-- The table of the holidays that are kept in a country and a part of it. -/
def ofHolidays (holidays : List Holiday) (country subregion : Option String) : HolidayTable :=
  (holidays.filter fun h => h.isKeptIn country subregion).foldl
    (fun t h => t.insert h.date h.kind h.name) {}

/-- The name of a day. -/
def name? (t : HolidayTable) (date : Date) (kind : HolidayKind) : Option String :=
  (t.days.find? (isFor date kind)).map NamedDay.name

/-- The number of named days. -/
def size (t : HolidayTable) : Nat := t.days.length

/-- Whether no day is named. -/
def isEmpty (t : HolidayTable) : Bool := t.days.isEmpty

end HolidayTable

end OpeningHours
