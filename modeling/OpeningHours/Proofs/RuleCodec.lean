import OpeningHours.Loading
import OpeningHours.Proofs.JsonCodec
import Mathlib

/-!
# Lists of rules written and loaded

Every part of a rule is read back as it was written, and so is a list of rules. What
the loader still refuses of a list it reads is its times past 48:00, the first of
them in the order of the rules, and the list that has no rule.
-/

namespace OpeningHours

open Json (Undoes undoes_bool undoes_int32 undoes_int64 undoes_parsed undoes_string undoes_uint32
  undoes_word lookup_listMember names_listMember)

open Json.Record (gets_required gets_default gets_optional gets_list)

/-! ## Words -/

theorem Weekday.undoes : Undoes Weekday.read Weekday.toJson := undoes_parsed Weekday.ofName?_shortName

theorem Status.undoes : Undoes Status.read Status.toJson :=
  undoes_word fun s => by cases s <;> decide

theorem RuleKind.undoes : Undoes RuleKind.read RuleKind.toJson :=
  undoes_word fun k => by cases k <;> decide

theorem HolidayKind.undoes : Undoes HolidayKind.read HolidayKind.toJson :=
  undoes_word fun k => by cases k <;> decide

theorem ShiftDirection.undoes : Undoes ShiftDirection.read ShiftDirection.toJson :=
  undoes_word fun d => by cases d <;> decide

theorem Feast.undoes : Undoes Feast.read Feast.toJson :=
  undoes_word fun f => by cases f; decide

theorem SolarEvent.undoes : Undoes SolarEvent.read SolarEvent.toJson :=
  undoes_word fun e => by cases e <;> decide

/-! ## Selectors -/

theorem YearRange.undoes : Undoes YearRange.record.read YearRange.toJson where
  read_write r := by
    obtain ⟨start, stop?, step, openEnded⟩ := r
    refine Json.Record.Gets.read ?_ (List.Sublist.refl _) (by decide)
    exact (gets_required undoes_int32 rfl).map YearRange.mk
      |>.seq (gets_optional undoes_int32 rfl)
      |>.seq (gets_default undoes_uint32 rfl)
      |>.seq (gets_default undoes_bool rfl)
  isValue _ := trivial

theorem WeekRange.undoes : Undoes WeekRange.record.read WeekRange.toJson where
  read_write r := by
    obtain ⟨start, stop, step⟩ := r
    refine Json.Record.Gets.read ?_ (List.Sublist.refl _) (by decide)
    exact (gets_required undoes_uint32 rfl).map WeekRange.mk
      |>.seq (gets_required undoes_uint32 rfl)
      |>.seq (gets_default undoes_uint32 rfl)
  isValue _ := trivial

theorem WeekdayRange.undoes : Undoes WeekdayRange.record.read WeekdayRange.toJson where
  read_write r := by
    obtain ⟨start, stop⟩ := r
    refine Json.Record.Gets.read ?_ (List.Sublist.refl _) (by decide)
    exact (gets_required Weekday.undoes rfl).map WeekdayRange.mk
      |>.seq (gets_required Weekday.undoes rfl)
  isValue _ := trivial

theorem HolidaySelector.undoes : Undoes HolidaySelector.record.read HolidaySelector.toJson where
  read_write s := by
    obtain ⟨kind, dayOffset⟩ := s
    refine Json.Record.Gets.read ?_ (List.Sublist.refl _) (by decide)
    exact (gets_required HolidayKind.undoes rfl).map HolidaySelector.mk
      |>.seq (gets_default undoes_int64 rfl)
  isValue _ := trivial

/-! ## Dates -/

theorem WeekdayShift.undoes : Undoes WeekdayShift.record.read WeekdayShift.toJson where
  read_write o := by
    obtain ⟨weekday, direction⟩ := o
    refine Json.Record.Gets.read ?_ (List.Sublist.refl _) (by decide)
    exact (gets_required Weekday.undoes rfl).map WeekdayShift.mk
      |>.seq (gets_required ShiftDirection.undoes rfl)
  isValue _ := trivial

theorem DatePoint.undoes : Undoes DatePoint.record.read DatePoint.toJson where
  read_write p := by
    obtain ⟨year?, month?, day?, feast?, shift?, dayOffset⟩ := p
    refine Json.Record.Gets.read ?_ (List.Sublist.refl _) (by decide)
    exact (gets_optional undoes_int32 rfl).map DatePoint.mk
      |>.seq (gets_optional undoes_uint32 rfl)
      |>.seq (gets_optional undoes_uint32 rfl)
      |>.seq (gets_optional Feast.undoes rfl)
      |>.seq (gets_optional WeekdayShift.undoes rfl)
      |>.seq (gets_default undoes_int64 rfl)
  isValue _ := trivial

theorem DateRange.undoes : Undoes DateRange.record.read DateRange.toJson where
  read_write r := by
    obtain ⟨start, stop?, openEnded⟩ := r
    refine Json.Record.Gets.read ?_ (List.Sublist.refl _) (by decide)
    exact (gets_required DatePoint.undoes rfl).map DateRange.mk
      |>.seq (gets_optional DatePoint.undoes rfl)
      |>.seq (gets_default undoes_bool rfl)
  isValue _ := trivial

/-! ## Times -/

theorem TimePoint.read_solarRecord (event : SolarEvent) (offset : Int32) :
    solarRecord.read (.ofMembers [("event", event.toJson), ("offset", .ofInt offset.toInt)]) =
      .ok (solar event offset) := by
  refine Json.Record.Gets.read ?_ (List.Sublist.refl _) (by decide)
  exact (gets_required SolarEvent.undoes rfl).map solar
    |>.seq (gets_default undoes_int32 rfl)

theorem TimePoint.undoes : Undoes TimePoint.read TimePoint.toJson where
  read_write p := by
    cases p with
    | fixed minute =>
      show (do
        let p ← (do return fixed (← Json.readUInt32 (.ofInt minute.toNat)) : Except Fault TimePoint)
        Json.unlessCut p none) = .ok (fixed minute)
      rw [undoes_uint32.read_write]
      rfl
    | solar event offset =>
      show (do
        let p ← solarRecord.read (.ofMembers [("event", event.toJson), ("offset", .ofInt offset.toInt)])
        Json.unlessCut p none) = .ok (solar event offset)
      rw [read_solarRecord]
      rfl
  isValue p := by cases p <;> trivial

theorem TimeSpan.undoes : Undoes TimeSpan.record.read TimeSpan.toJson where
  read_write s := by
    obtain ⟨start, stop?⟩ := s
    refine Json.Record.Gets.read ?_ (List.Sublist.refl _) (by decide)
    exact (gets_required TimePoint.undoes rfl).map TimeSpan.mk
      |>.seq (gets_optional TimePoint.undoes rfl)
  isValue _ := trivial

/-! ## Rules -/

namespace Rule

/-- The names of the fields, in the order in which they are written. -/
theorem names_record (fresh : RuleId) : (record fresh).names =
    ["id", "kind", "years", "weeks", "dates", "weekdays", "holidays", "times", "status", "comment"] := rfl

/-- What a rule leaves out is what the reader fills in, and its id is never left out. -/
theorem read_record_toJson (fresh : RuleId) (r : Rule) : (record fresh).read r.toJson = .ok r := by
  obtain ⟨id, kind, years, weeks, dates, weekdays, holidays, times, status, comment?⟩ := r
  have hid : Undoes (fun j => RuleId.mk <$> Json.readString j) fun id => .ofString id.text :=
    ⟨fun _ => rfl, fun _ => trivial⟩
  refine Json.Record.Gets.read ?gets ?names (by rw [names_record]; decide)
  case gets =>
    -- an empty list has no member, so where the others stand is not known before the lists are
    refine (gets_default hid ?_).map Rule.mk
      |>.seq (gets_default RuleKind.undoes ?_)
      |>.seq (gets_list YearRange.undoes ?_)
      |>.seq (gets_list WeekRange.undoes ?_)
      |>.seq (gets_list DateRange.undoes ?_)
      |>.seq (gets_list WeekdayRange.undoes ?_)
      |>.seq (gets_list HolidaySelector.undoes ?_)
      |>.seq (gets_list TimeSpan.undoes ?_)
      |>.seq (gets_default Status.undoes ?_)
      |>.seq (gets_optional undoes_string ?_)
    all_goals simp [List.lookup_append, lookup_listMember, List.lookup_cons]
  case names =>
    simp only [List.map_append]
    exact (List.Sublist.refl ["id", "kind"]).append (names_listMember _ _ years)
      |>.append (names_listMember _ _ weeks)
      |>.append (names_listMember _ _ dates)
      |>.append (names_listMember _ _ weekdays)
      |>.append (names_listMember _ _ holidays)
      |>.append (names_listMember _ _ times)
      |>.append (List.Sublist.refl ["status", "comment"])

theorem readList_ofList (fresh : Nat → RuleId) (rules : List Rule) :
    readList fresh (.ofList (rules.map toJson)) = .ok rules :=
  Json.readIndexed_ofList (fun place => read_record_toJson (fresh place)) rules

/-! ## The loader -/

end Rule

/-- A time that does not lie past 48:00, as far as the rule says. -/
def TimePoint.IsInRange : TimePoint → Prop
  | fixed minute => minute.toNat ≤ 2 * minutesPerDay
  | solar .. => True

namespace Rule

theorem lateMinute?_eq_none_iff {p : TimePoint} : lateMinute? p = none ↔ p.IsInRange := by
  cases p with
  | fixed minute =>
    rw [lateMinute?, TimePoint.IsInRange, ite_eq_right_iff, ← Nat.not_lt]
    simp
  | solar event offset => exact iff_of_true rfl trivial

theorem lateMinute?_eq_some_iff {p : TimePoint} {late : Nat} :
    lateMinute? p = some late ↔ ∃ minute, p = .fixed minute ∧ 2 * minutesPerDay < minute.toNat ∧
      late = minute.toNat := by
  cases p with
  | fixed minute => simp [lateMinute?, eq_comm]
  | solar event offset => simp [lateMinute?]

theorem timeFault?_eq_none_iff {r : Rule} :
    r.timeFault? = none ↔ ∀ p ∈ r.timePoints, p.IsInRange := by
  rw [timeFault?, Option.map_eq_none_iff, List.findSome?_eq_none_iff]
  simp only [lateMinute?_eq_none_iff]

theorem timeFault?_eq_some_iff {r : Rule} {e : RuleListError} :
    r.timeFault? = some e ↔ ∃ earlier minute later, r.timePoints = earlier ++ .fixed minute :: later ∧
      (∀ p ∈ earlier, p.IsInRange) ∧ 2 * minutesPerDay < minute.toNat ∧
      e = .timeOutOfRange minute.toNat r.id := by
  rw [timeFault?, Option.map_eq_some_iff]
  simp only [List.findSome?_eq_some_iff, lateMinute?_eq_none_iff, lateMinute?_eq_some_iff]
  constructor
  · rintro ⟨_, ⟨earlier, _, later, hpoints, ⟨minute, rfl, hlate, rfl⟩, hearlier⟩, rfl⟩
    exact ⟨earlier, minute, later, hpoints, hearlier, hlate, rfl⟩
  · rintro ⟨earlier, minute, later, hpoints, hearlier, hlate, rfl⟩
    exact ⟨_, ⟨earlier, _, later, hpoints, ⟨minute, rfl, hlate, rfl⟩, hearlier⟩, rfl⟩

theorem checkList_eq_ok_iff {rules loaded : List Rule} :
    checkList rules = .ok loaded ↔
      loaded = rules ∧ rules ≠ [] ∧ ∀ r ∈ rules, ∀ p ∈ r.timePoints, p.IsInRange := by
  cases rules with
  | nil => simp [checkList]
  | cons r rules =>
    rw [checkList, List.isEmpty_cons, if_neg Bool.false_ne_true]
    simp only [← timeFault?_eq_none_iff, ← List.findSome?_eq_none_iff]
    cases (r :: rules).findSome? timeFault? <;> simp [eq_comm]

theorem checkList_eq_error_iff {rules : List Rule} {e : RuleListError} :
    checkList rules = .error e ↔
      e = .empty ∧ rules = [] ∨
      ∃ before r after, rules = before ++ r :: after ∧
        (∀ earlier ∈ before, ∀ p ∈ earlier.timePoints, p.IsInRange) ∧ r.timeFault? = some e := by
  cases rules with
  | nil => simp [checkList, eq_comm]
  | cons first rules =>
    have hsome : checkList (first :: rules) = .error e ↔
        (first :: rules).findSome? timeFault? = some e := by
      rw [checkList, List.isEmpty_cons, if_neg Bool.false_ne_true]
      cases (first :: rules).findSome? timeFault? <;> simp
    rw [hsome, List.findSome?_eq_some_iff]
    simp only [timeFault?_eq_none_iff]
    constructor
    · rintro ⟨before, r, after, hrules, hfault, hbefore⟩
      exact .inr ⟨before, r, after, hrules, hbefore, hfault⟩
    · rintro (⟨_, hnil⟩ | ⟨before, r, after, hrules, hbefore, hfault⟩)
      · exact absurd hnil (List.cons_ne_nil _ _)
      · exact ⟨before, r, after, hrules, hfault, hbefore⟩

/-- A rule's times are in range when every fixed minute that starts or ends a span is. -/
theorem forall_timePoints_iff {r : Rule} :
    (∀ p ∈ r.timePoints, p.IsInRange) ↔ ∀ s ∈ r.times, ∀ minute,
      s.start = .fixed minute ∨ s.stop? = some (.fixed minute) → minute.toNat ≤ 2 * minutesPerDay := by
  simp only [timePoints, List.mem_flatMap, List.mem_cons, Option.mem_toList]
  constructor
  · intro h s hs minute hpoint
    refine h (.fixed minute) ⟨s, hs, ?_⟩
    exact hpoint.imp_left Eq.symm
  · rintro h p ⟨s, hs, hp⟩
    cases p with
    | fixed minute => exact h s hs minute (hp.imp_left Eq.symm)
    | solar event offset => trivial

/-- What a text of a list of rules is loaded as, given that nothing of it is lost in the text. -/
theorem parseList_of_scan {fresh : Nat → RuleId} {rules : List Rule} {text : Json.Bytes}
    (h : Json.scan text = ⟨.ofList (rules.map toJson), false⟩) :
    parseList fresh text = checkList rules := by
  have hread := Json.readDocument_of_scan h (readList_ofList fresh rules)
  rw [parseList, hread, accept]

/--
Rules that were written are loaded as they were, unless there are none or a fixed time
lies past 48:00; then the error is about the first such time of the first such rule.
-/
theorem parseList_written (fresh : Nat → RuleId) (rules : List Rule) (text : Json.Bytes)
    (htext : Json.scan text = ⟨.ofList (rules.map toJson), false⟩) :
    (∀ loaded, parseList fresh text = .ok loaded ↔
      loaded = rules ∧ rules ≠ [] ∧ ∀ r ∈ rules, ∀ s ∈ r.times, ∀ minute,
        s.start = .fixed minute ∨ s.stop? = some (.fixed minute) → minute.toNat ≤ 2880) ∧
    (∀ e, parseList fresh text = .error e ↔
      e = .empty ∧ rules = [] ∨
      ∃ before r after earlier minute later, rules = before ++ r :: after ∧
        (∀ r' ∈ before, ∀ p ∈ r'.timePoints, p.IsInRange) ∧
        r.timePoints = earlier ++ .fixed minute :: later ∧ (∀ p ∈ earlier, p.IsInRange) ∧
        2880 < minute.toNat ∧ e = .timeOutOfRange minute.toNat r.id) := by
  rw [parseList_of_scan htext]
  constructor
  · intro loaded
    rw [checkList_eq_ok_iff]
    simp only [forall_timePoints_iff]
    rfl
  · intro e
    rw [checkList_eq_error_iff]
    refine or_congr_right ⟨?_, ?_⟩
    · rintro ⟨before, r, after, hrules, hbefore, hfault⟩
      obtain ⟨earlier, minute, later, hpoints, hearlier, hlate, rfl⟩ :=
        timeFault?_eq_some_iff.1 hfault
      exact ⟨before, r, after, earlier, minute, later, hrules, hbefore, hpoints, hearlier, hlate, rfl⟩
    · rintro ⟨before, r, after, earlier, minute, later, hrules, hbefore, hpoints, hearlier, hlate,
        rfl⟩
      exact ⟨before, r, after, hrules, hbefore,
        timeFault?_eq_some_iff.2 ⟨earlier, minute, later, hpoints, hearlier, hlate, rfl⟩⟩

/-- Closed from dusk to a minute past 48:00. -/
def gate : Rule :=
  { id := ⟨"gate"⟩, times := [.between (.solar .dusk 0) (.fixed 2881)], status := .closed }

/-- The gate as text, which is plain ASCII. -/
def gateText : Json.Bytes :=
  ("[\x7b\"id\":\"gate\",\"kind\":\"override\",\"times\":[\x7b" ++
    "\"start\":\x7b\"solar\":\x7b\"event\":\"dusk\",\"offset\":0\x7d\x7d," ++
    "\"end\":\x7b\"fixed\":2881\x7d\x7d],\"status\":\"closed\",\"comment\":null\x7d]").toList.map
    fun c => c.toNat.toUInt8

set_option maxRecDepth 20000 in
theorem scan_gateText : Json.scan gateText = ⟨.ofList ([gate].map toJson), false⟩ := by
  cbv

/-- A shop that is open on weekdays from 9:00 to 17:00, with a bell to ring at other times. -/
def shop : List Rule :=
  [{ id := ⟨"shop"⟩, weekdays := [⟨.mon, .fri⟩], times := [.fixed 540 1020] },
    { id := ⟨"bell"⟩, kind := .fallback, status := .unknown, comment? := some "ring" }]

/-- The rules of the shop as text. -/
def shopText : Json.Bytes :=
  ("[\x7b\"id\":\"shop\",\"kind\":\"override\"," ++
    "\"weekdays\":[\x7b\"start\":\"Mon\",\"end\":\"Fri\"\x7d]," ++
    "\"times\":[\x7b\"start\":\x7b\"fixed\":540\x7d,\"end\":\x7b\"fixed\":1020\x7d\x7d]," ++
    "\"status\":\"open\",\"comment\":null\x7d," ++
    "\x7b\"id\":\"bell\",\"kind\":\"fallback\"," ++
    "\"status\":\"unknown\",\"comment\":\"ring\"\x7d]").toList.map
    fun c => c.toNat.toUInt8

set_option maxRecDepth 40000 in
theorem scan_shopText : Json.scan shopText = ⟨.ofList (shop.map toJson), false⟩ := by
  cbv

/-- The rules of the shop are loaded in their order; the gate is refused for its late minute. -/
theorem parseList_written_gate :
    (Json.scan shopText = ⟨.ofList (shop.map toJson), false⟩ ∧
      parseList (fun _ => ⟨""⟩) shopText = .ok shop) ∧
    Json.scan gateText = ⟨.ofList ([gate].map toJson), false⟩ ∧
    parseList (fun _ => ⟨""⟩) gateText = .error (.timeOutOfRange 2881 ⟨"gate"⟩) := by
  refine ⟨⟨scan_shopText,
    ((parseList_written (fun _ => ⟨""⟩) shop shopText scan_shopText).1 shop).2 ⟨rfl, ?_, ?_⟩⟩,
    scan_gateText,
    ((parseList_written (fun _ => ⟨""⟩) [gate] gateText scan_gateText).2 _).2 (.inr ?_)⟩
  · exact List.cons_ne_nil _ _
  · intro r hr s hs minute hpoint
    have hs : s = .fixed 540 1020 := by
      rcases List.mem_cons.1 hr with rfl | hbell
      · exact List.mem_singleton.1 hs
      · rw [List.mem_singleton.1 hbell] at hs
        cases hs
    subst hs
    rcases hpoint with hstart | hstop
    · cases hstart
      decide
    · cases hstop
      decide
  · refine ⟨[], gate, [], [.solar .dusk 0], 2881, [], rfl, ?_, rfl, ?_, by decide, rfl⟩
    · intro r hr
      cases hr
    · intro p hp
      rw [List.mem_singleton.1 hp]
      trivial

end Rule

end OpeningHours
