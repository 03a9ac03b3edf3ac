import OpeningHours.Proofs.DateText
import OpeningHours.Proofs.RuleCodec

/-!
# Configurations written and loaded

A configuration is read back as it was written. What it leaves open is written as null, and the
list of holidays is left out when it is empty; the reader takes either for what it stands for. The
regions of a holiday are always written, as an empty list if there are none. A date is a text of
its own, which is read as the date it was written for.

The loader refuses a configuration that it has read only when it searches no week.
-/

namespace OpeningHours

open Json (Undoes undoes_parsed undoes_string undoes_uint32 lookup_listMember names_listMember)

open Json.Record (gets_default gets_field gets_list gets_optional gets_required)

theorem Date.undoes : Undoes Date.read Date.toJson := undoes_parsed Date.ofText?_toText

theorem Coordinates.undoes : Undoes Coordinates.record.read Coordinates.toJson where
  read_write c := by
    obtain ⟨lat, lon⟩ := c
    have hfloat : Undoes Json.readFloat fun x => .number (.ok (.real x)) :=
      ⟨fun _ => rfl, fun _ => trivial⟩
    refine Json.Record.Gets.read ?_ (List.Sublist.refl _) (by decide)
    exact (gets_required hfloat rfl).map Coordinates.mk
      |>.seq (gets_required hfloat rfl)
  isValue _ := trivial

theorem Holiday.undoes : Undoes Holiday.record.read Holiday.toJson where
  read_write h := by
    obtain ⟨date, kind, name, regions⟩ := h
    refine Json.Record.Gets.read ?_ (List.Sublist.refl _) (by decide)
    exact (gets_required Date.undoes rfl).map Holiday.mk
      |>.seq (gets_required HolidayKind.undoes rfl)
      |>.seq (gets_required undoes_string rfl)
      |>.seq (gets_field rfl (undoes_string.readList regions))
  isValue _ := trivial

namespace Config

/-- What a configuration leaves out is what the reader fills in. -/
theorem read_record_toJson (c : Config) : record.read c.toJson = .ok c := by
  obtain ⟨country, subregion, locale, coordinates, horizon, holidays⟩ := c
  refine Json.Record.Gets.read ?gets ?names (by decide)
  case gets =>
    refine (gets_optional undoes_string ?_).map Config.mk
      |>.seq (gets_optional undoes_string ?_)
      |>.seq (gets_optional undoes_string ?_)
      |>.seq (gets_optional Coordinates.undoes ?_)
      |>.seq (gets_default undoes_uint32 ?_)
      |>.seq (gets_list Holiday.undoes ?_)
    all_goals simp [lookup_listMember, List.lookup_cons]
  case names =>
    rw [List.map_append]
    exact (List.Sublist.refl
      ["country", "subregion", "locale", "coordinates", "search_horizon_weeks"]).append
      (names_listMember _ _ holidays)

/--
**Configurations that were written are loaded as they were.**

A date is written with four digits for a year from 0 to 9999, and with a sign and at least four
digits for any other, and is read back from this. A configuration is loaded, from a text in which
nothing of it is lost, as the configuration that was written, unless it searches no week.
-/
theorem load_written :
    (∀ d : Date, d.WrittenAs d.toText.toList ∧ Date.ofText? d.toText = some d) ∧
      ∀ (c : Config) (path : String) (text : Json.Bytes), Json.scan text = ⟨c.toJson, false⟩ →
        load path (some text) = if c.horizon = 0 then .error .zeroHorizon else .ok c := by
  constructor
  · intro d
    exact ⟨d.writtenAs_toText, d.ofText?_toText⟩
  · intro c path text htext
    rw [load, Json.readDocument_of_scan htext (read_record_toJson c), accept]

/-- A week is searched. The one holiday is the last day of February in the year 10000. -/
def leapDay : Config where
  country := some "DE"
  horizon := 1
  holidays := [{ date := ⟨3652484, by decide, by decide⟩, kind := .publicDay, name := "Leap",
                 regions := ["DE-NW"] }]

/-- The configuration as text, which is plain ASCII. -/
def leapDayText : Json.Bytes :=
  ("\x7b\"country\":\"DE\",\"subregion\":null,\"locale\":null,\"coordinates\":null," ++
    "\"search_horizon_weeks\":1,\"holidays\":[\x7b\"date\":\"+10000-02-29\"," ++
    "\"kind\":\"public\",\"name\":\"Leap\",\"regions\":[\"DE-NW\"]\x7d]\x7d").toList.map
    fun c => c.toNat.toUInt8

set_option maxRecDepth 20000 in
theorem scan_leapDayText : Json.scan leapDayText = ⟨leapDay.toJson, false⟩ := by
  cbv

theorem load_written_leapDay : Json.scan leapDayText = ⟨leapDay.toJson, false⟩ ∧
    load "leap.json" (some leapDayText) = .ok leapDay :=
  ⟨scan_leapDayText, load_written.2 leapDay "leap.json" leapDayText scan_leapDayText⟩

end Config

end OpeningHours
