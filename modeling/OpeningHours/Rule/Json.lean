import OpeningHours.Json.Read
import OpeningHours.Rule.Basic

/-!
# Rules in JSON

Each part of a rule has a reader and a writer. The writer of a rule leaves out the
lists of selectors that are empty and writes everything else; the reader fills in
what is left out. A rule without an id is given one by whoever reads it.
-/

namespace OpeningHours

open Json (Reader Record readBool readUInt32 readInt32 readInt64 readWord byWord ofInt listMember)

/-! ## Words -/

/-- Reads a day of the week by its name. -/
def Weekday.read : Reader Weekday := Json.readParsed Weekday.ofName?

/-- Writes a day of the week. -/
def Weekday.toJson (w : Weekday) : Json := .ofString w.shortName

/-- The status of a word. -/
def Status.ofWord? : String → Option Status := byWord word [opened, closed, unknown]

/-- Reads a status. -/
def Status.read : Reader Status := readWord ofWord?

/-- Writes a status. -/
def Status.toJson (s : Status) : Json := .ofString s.word

/-- Reads a kind of rule. -/
def RuleKind.read : Reader RuleKind := readWord (byWord word [override, additional, fallback])

/-- Writes a kind of rule. -/
def RuleKind.toJson (k : RuleKind) : Json := .ofString k.word

/-- Reads a kind of holiday. -/
def HolidayKind.read : Reader HolidayKind := readWord (byWord word [publicDay, schoolBreak])

/-- Writes a kind of holiday. -/
def HolidayKind.toJson (k : HolidayKind) : Json := .ofString k.word

/-- The word for a direction. -/
def ShiftDirection.word : ShiftDirection → String
  | next => "next"
  | previous => "previous"

/-- Reads a direction. -/
def ShiftDirection.read : Reader ShiftDirection := readWord (byWord word [next, previous])

/-- Writes a direction. -/
def ShiftDirection.toJson (d : ShiftDirection) : Json := .ofString d.word

/-- The word for a feast. -/
def Feast.word : Feast → String
  | easter => "easter"

/-- Reads a feast. -/
def Feast.read : Reader Feast := readWord (byWord word [easter])

/-- Writes a feast. -/
def Feast.toJson (f : Feast) : Json := .ofString f.word

/-- Reads an event of the sun. -/
def SolarEvent.read : Reader SolarEvent := readWord (byWord word all)

/-- Writes an event of the sun. -/
def SolarEvent.toJson (e : SolarEvent) : Json := .ofString e.word

/-! ## Selectors -/

/-- The fields of a range of years. -/
def YearRange.record : Record YearRange :=
  YearRange.mk <$> .required "start" readInt32 <*> .optional "end" readInt32
    <*> .default "step" readUInt32 1 <*> .default "open_ended" readBool false

/-- Writes a range of years. -/
def YearRange.toJson (r : YearRange) : Json := .ofMembers [
  ("start", ofInt r.start.toInt), ("end", .ofOption (fun y => ofInt y.toInt) r.stop?),
  ("step", ofInt r.step.toNat), ("open_ended", .bool r.openEnded)]

/-- The fields of a range of weeks. -/
def WeekRange.record : Record WeekRange :=
  WeekRange.mk <$> .required "start" readUInt32 <*> .required "end" readUInt32
    <*> .default "step" readUInt32 1

/-- Writes a range of weeks. -/
def WeekRange.toJson (r : WeekRange) : Json := .ofMembers [
  ("start", ofInt r.start.toNat), ("end", ofInt r.stop.toNat), ("step", ofInt r.step.toNat)]

/-- The fields of a range of weekdays. -/
def WeekdayRange.record : Record WeekdayRange :=
  WeekdayRange.mk <$> .required "start" Weekday.read <*> .required "end" Weekday.read

/-- Writes a range of weekdays. -/
def WeekdayRange.toJson (r : WeekdayRange) : Json := .ofMembers [
  ("start", r.start.toJson), ("end", r.stop.toJson)]

/-- The fields of a selector of holidays. -/
def HolidaySelector.record : Record HolidaySelector :=
  HolidaySelector.mk <$> .required "kind" HolidayKind.read <*> .default "day_offset" readInt64 0

/-- Writes a selector of holidays. -/
def HolidaySelector.toJson (h : HolidaySelector) : Json := .ofMembers [
  ("kind", h.kind.toJson), ("day_offset", ofInt h.dayOffset.toInt)]

/-! ## Dates -/

/-- The fields of a shift to a day of the week. -/
def WeekdayShift.record : Record WeekdayShift :=
  WeekdayShift.mk <$> .required "weekday" Weekday.read <*> .required "direction" ShiftDirection.read

/-- Writes a shift to a day of the week. -/
def WeekdayShift.toJson (o : WeekdayShift) : Json := .ofMembers [
  ("weekday", o.weekday.toJson), ("direction", o.direction.toJson)]

/-- The fields of a point of a range of dates. -/
def DatePoint.record : Record DatePoint :=
  DatePoint.mk <$> .optional "year" readInt32 <*> .optional "month" readUInt32
    <*> .optional "day" readUInt32 <*> .optional "variable" Feast.read
    <*> .optional "weekday_offset" WeekdayShift.record.read <*> .default "day_offset" readInt64 0

/-- Writes a point of a range of dates. -/
def DatePoint.toJson (p : DatePoint) : Json := .ofMembers [
  ("year", .ofOption (fun y => ofInt y.toInt) p.year?),
  ("month", .ofOption (fun m => ofInt m.toNat) p.month?),
  ("day", .ofOption (fun d => ofInt d.toNat) p.day?),
  ("variable", .ofOption Feast.toJson p.feast?),
  ("weekday_offset", .ofOption WeekdayShift.toJson p.weekdayShift?),
  ("day_offset", ofInt p.dayOffset.toInt)]

/-- The fields of a range of dates. -/
def DateRange.record : Record DateRange :=
  DateRange.mk <$> .required "start" DatePoint.record.read
    <*> .optional "end" DatePoint.record.read <*> .default "open_ended" readBool false

/-- Writes a range of dates. -/
def DateRange.toJson (r : DateRange) : Json := .ofMembers [
  ("start", r.start.toJson), ("end", .ofOption DatePoint.toJson r.stop?),
  ("open_ended", .bool r.openEnded)]

/-! ## Times -/

/-- The fields of an event of the sun with its offset. -/
def TimePoint.solarRecord : Record TimePoint :=
  TimePoint.solar <$> .required "event" SolarEvent.read <*> .default "offset" readInt32 0

/-- What belongs to the word for a time. -/
def TimePoint.content : String → Option (Reader TimePoint)
  | "fixed" => some fun j => do return .fixed (← readUInt32 j)
  | "solar" => some solarRecord.read
  | _ => none

/-- Reads a time of the day; no time is a word by itself. -/
def TimePoint.read : Reader TimePoint := Json.readChoice (fun _ => none) content

/-- Writes a time of the day. -/
def TimePoint.toJson : TimePoint → Json
  | fixed minute => .ofMembers [("fixed", ofInt minute.toNat)]
  | solar event offset => .ofMembers [
      ("solar", .ofMembers [("event", event.toJson), ("offset", ofInt offset.toInt)])]

/-- The fields of a span of time. -/
def TimeSpan.record : Record TimeSpan :=
  TimeSpan.mk <$> .required "start" TimePoint.read <*> .optional "end" TimePoint.read

/-- Writes a span of time. -/
def TimeSpan.toJson (s : TimeSpan) : Json := .ofMembers [
  ("start", s.start.toJson), ("end", .ofOption TimePoint.toJson s.stop?)]

/-! ## Rules -/

namespace Rule

/-- The fields of a rule, which gets an id if it has none of its own. -/
def record (fresh : RuleId) : Record Rule :=
  Rule.mk <$> .default "id" (fun j => RuleId.mk <$> Json.readString j) fresh
    <*> .default "kind" RuleKind.read .override
    <*> .list "years" YearRange.record.read
    <*> .list "weeks" WeekRange.record.read
    <*> .list "dates" DateRange.record.read
    <*> .list "weekdays" WeekdayRange.record.read
    <*> .list "holidays" HolidaySelector.record.read
    <*> .list "times" TimeSpan.record.read
    <*> .default "status" Status.read .opened
    <*> .optional "comment" Json.readString

/-- Writes a rule. -/
def toJson (r : Rule) : Json := .ofMembers <|
  [("id", .ofString r.id.text), ("kind", r.kind.toJson)]
    ++ listMember "years" YearRange.toJson r.years
    ++ listMember "weeks" WeekRange.toJson r.weeks
    ++ listMember "dates" DateRange.toJson r.dates
    ++ listMember "weekdays" WeekdayRange.toJson r.weekdays
    ++ listMember "holidays" HolidaySelector.toJson r.holidays
    ++ listMember "times" TimeSpan.toJson r.times
    ++ [("status", r.status.toJson), ("comment", .ofOption Json.ofString r.comment?)]

/-- Reads a list of rules; a rule without an id gets one by its place. -/
def readList (fresh : Nat → RuleId) : Reader (List Rule) :=
  Json.readIndexed fun place => (record (fresh place)).read

end Rule

end OpeningHours
