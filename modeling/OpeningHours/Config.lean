import OpeningHours.Calendar.DateText
import OpeningHours.Rule.Json
import OpeningHours.Setting

/-!
# Configurations

A configuration is a setting as it is kept in a file: where the place is, which
locale counts its weeks, how far a search goes, and the holidays of all regions. The
setting made of it has the holidays of its own region.
-/

namespace OpeningHours

open Json (Reader Record)

/-- A setting as it is kept in a file. -/
structure Config where
  country : Option String := none
  subregion : Option String := none
  locale : Option String := none
  coordinates : Option Coordinates := none
  horizon : UInt32 := defaultHorizon
  holidays : List Holiday := []

/-- The fields of a place on the globe. -/
def Coordinates.record : Record Coordinates :=
  Coordinates.mk <$> .required "lat" Json.readFloat <*> .required "lon" Json.readFloat

/-- Writes a place on the globe. -/
def Coordinates.toJson (c : Coordinates) : Json := .ofMembers [
  ("lat", .number (.ok (.real c.lat))), ("lon", .number (.ok (.real c.lon)))]

/-- Reads a date. -/
def Date.read : Reader Date := Json.readParsed Date.ofText?

/-- Writes a date. -/
def Date.toJson (d : Date) : Json := .ofString d.toText

/-- The fields of a holiday. -/
def Holiday.record : Record Holiday :=
  Holiday.mk <$> .required "date" Date.read <*> .required "kind" HolidayKind.read
    <*> .required "name" Json.readString <*> .list "regions" Json.readString

/-- Writes a holiday. -/
def Holiday.toJson (h : Holiday) : Json := .ofMembers [
  ("date", h.date.toJson), ("kind", h.kind.toJson), ("name", .ofString h.name),
  ("regions", .ofList (h.regions.map Json.ofString))]

namespace Config

/-- The fields of a configuration. -/
def record : Record Config :=
  Config.mk <$> .optional "country" Json.readString <*> .optional "subregion" Json.readString
    <*> .optional "locale" Json.readString <*> .optional "coordinates" Coordinates.record.read
    <*> .default "search_horizon_weeks" Json.readUInt32 defaultHorizon
    <*> .list "holidays" Holiday.record.read

/-- Writes a configuration. -/
def toJson (c : Config) : Json := .ofMembers <|
  [("country", .ofOption Json.ofString c.country),
    ("subregion", .ofOption Json.ofString c.subregion),
    ("locale", .ofOption Json.ofString c.locale),
    ("coordinates", .ofOption Coordinates.toJson c.coordinates),
    ("search_horizon_weeks", .ofInt c.horizon.toNat)]
    ++ Json.listMember "holidays" Holiday.toJson c.holidays

end Config

/-- The setting of a configuration. -/
def Setting.ofConfig (c : Config) : Setting :=
  { holiday? := (HolidayTable.ofHolidays c.holidays c.country c.subregion).name?
    coordinates? := c.coordinates
    locale? := c.locale
    horizon := c.horizon.toNat }

end OpeningHours
