import OpeningHours.Proofs.DatePoint
import OpeningHours.Proofs.Machine.Arithmetic

/-!
# Ranges of dates on machine numbers

Years come from rules and have any 32 bits, or come from a date. The rule for Easter stays
within 32 bits for all of them. A year is moved only after a date was found in it, and the
day of a month is brought between bounds only where the month exists.
-/

namespace OpeningHours.Machine

/-- A year that a rule can name. -/
def IsYear (year : Int) : Prop := -0x80000000 ≤ year ∧ year < 0x80000000

/-! ## Easter -/

/-- Days from 21 March to the full moon of Easter. -/
def moon (golden century : Int) : Machine Int := do
  let late ← int32 (century + 8)
  let correction ← int32 (century - late.tdiv 25)
  let correction ← int32 (correction + 1)
  let sum ← int32 (19 * golden)
  let sum ← int32 (sum + century)
  let sum ← int32 (sum - century.tdiv 4)
  let sum ← int32 (sum - correction.tdiv 3)
  return (← int32 (sum + 15)) % 30

/-- Days from the day after the full moon to a Sunday. -/
def sunday (century rest moon : Int) : Machine Int := do
  let centuries ← int32 (2 * century.tmod 4)
  let sum ← int32 (32 + centuries)
  let years ← int32 (2 * rest.tdiv 4)
  let sum ← int32 (sum + years)
  let sum ← int32 (sum - moon)
  return (← int32 (sum - rest.tmod 4)) % 7

/-- The month and the day of Easter in one number. -/
def marker (golden moon sunday : Int) : Machine Int := do
  let moons ← int32 (11 * moon)
  let sum ← int32 (golden + moons)
  let sundays ← int32 (22 * sunday)
  let late ← int32 (sum + sundays)
  let days ← int32 (moon + sunday)
  let weeks ← int32 (7 * late.tdiv 451)
  let days ← int32 (days - weeks)
  int32 (days + 114)

/-- Easter Sunday of a year, if it has one, with every sum and product kept within 32 bits. -/
def easter? (year : Int) : Machine (Option Date) := do
  let golden := year % 19
  let century := year / 100
  let moon ← moon golden century
  let sunday ← sunday century (year % 100) moon
  let marker ← marker golden moon sunday
  let day ← int32 (marker.tmod 31 + 1)
  return Date.ofYmd? year (marker.tdiv 31).toNat day.toNat

/-- A quotient toward zero is no larger than what was divided. -/
theorem bounds_tdiv {a bound : Int} (n : Int) (h : -bound ≤ a ∧ a ≤ bound) :
    -bound ≤ a.tdiv n ∧ a.tdiv n ≤ bound := by
  have habs : (a.tdiv n).natAbs ≤ a.natAbs := by
    rw [Int.natAbs_tdiv]
    exact Nat.div_le_self _ _
  omega

theorem moon_eq {golden century : Int} (hgolden : 0 ≤ golden ∧ golden < 19)
    (hcentury : -21474837 ≤ century ∧ century ≤ 21474837) :
    moon golden century = .ok ((19 * golden + century - century.tdiv 4 -
      (century - (century + 8).tdiv 25 + 1).tdiv 3 + 15) % 30) := by
  have hquarter := bounds_tdiv 4 hcentury
  have hlate := @bounds_tdiv (century + 8) 21474845 25 (by omega)
  have hcorrection := @bounds_tdiv (century - (century + 8).tdiv 25 + 1) 42949683 3 (by omega)
  simp (disch := omega) only [moon, int32_eq, ok_bind]
  rfl

theorem sunday_eq {century rest moon : Int} (hrest : 0 ≤ rest ∧ rest < 100)
    (hmoon : 0 ≤ moon ∧ moon < 30) : sunday century rest moon =
      .ok ((32 + 2 * century.tmod 4 + 2 * (rest / 4) - moon - rest % 4) % 7) := by
  have hcenturies : -4 < century.tmod 4 ∧ century.tmod 4 < 4 :=
    ⟨Int.lt_tmod_of_pos century (by decide), Int.tmod_lt_of_pos century (by decide)⟩
  rw [sunday, Int.tdiv_eq_ediv_of_nonneg hrest.1, Int.tmod_eq_emod_of_nonneg hrest.1]
  simp (disch := omega) only [int32_eq, ok_bind]
  rfl

theorem marker_eq {golden moon sunday : Int} (hgolden : 0 ≤ golden ∧ golden < 19)
    (hmoon : 0 ≤ moon ∧ moon < 30) (hsunday : 0 ≤ sunday ∧ sunday < 7) :
    marker golden moon sunday =
      .ok (moon + sunday - 7 * ((golden + 11 * moon + 22 * sunday) / 451) + 114) := by
  have hsum : 0 ≤ golden + 11 * moon + 22 * sunday := by omega
  rw [← Int.tdiv_eq_ediv_of_nonneg hsum]
  have hlate := @bounds_tdiv (golden + 11 * moon + 22 * sunday) 469 451 (by omega)
  simp (disch := omega) only [marker, int32_eq, ok_bind]

/-- The rule comes to a day after 21 March. -/
theorem marker_pos (year : Int) : 0 ≤ (Computus.ofYear year).marker := by
  simp only [Computus.ofYear, Computus.marker]
  omega

theorem easter?_eq {year : Int} (hyear : IsYear year) :
    easter? year = .ok (OpeningHours.easter? year) := by
  unfold IsYear at hyear
  -- only the century depends on the size of the year; all else is a remainder
  rw [easter?, moon_eq (by omega) (by omega), ok_bind, sunday_eq (by omega) (by omega), ok_bind,
    marker_eq (by omega) (by omega) (by omega), ok_bind]
  have hmarker := marker_pos year
  show (int32 ((Computus.ofYear year).marker.tmod 31 + 1) >>= fun day =>
    .ok (Date.ofYmd? year ((Computus.ofYear year).marker.tdiv 31).toNat day.toNat)) = _
  rw [Int.tmod_eq_emod_of_nonneg hmarker, Int.tdiv_eq_ediv_of_nonneg hmarker, int32_eq (by omega)]
  rfl

/-! ## Months -/

/-- The first of the month after a month. -/
def firstOfNext? (year : Int) (month : Nat) : Machine (Option Date) := do
  if month = 12 then return Date.ofYmd? (year + 1) 1 1
  return Date.ofYmd? year (← uint32 (month + 1)) 1

/-- The number of days in a month: the last of them is the day before the first of the next month. -/
def monthLength? (year : Int) (month : Nat) : Machine (Option Nat) := do
  if month < 1 ∨ 12 < month then return none
  let next? ← firstOfNext? year month
  return (next?.bind fun next => next.add? (-1)).map Date.day

/-- The number of the first day after a month. -/
def stopOf (year : Int) (month : Nat) : Int :=
  Civil.daysBeforeYear year + Civil.daysBeforeMonth (Civil.isLeap year) (month + 1)

theorem stopOf_eq {year : Int} {month : Nat} (hmonth : 1 ≤ month ∧ month ≤ 12) :
    stopOf year month = YearMonth.start ⟨year, month⟩ + YearMonth.length ⟨year, month⟩ := by
  have hsucc := Civil.daysBeforeMonth_succ (Civil.isLeap year) month hmonth
  simp only [stopOf, YearMonth.start, YearMonth.length, Civil.numberOf]
  omega

theorem stopOf_december (year : Int) : stopOf year 12 = Civil.daysBeforeYear (year + 1) :=
  (stopOf_eq (by decide)).trans (YearMonth.start_add_length_of_december rfl)

theorem ofYmd?_first {year : Int} {month : Nat} (hmonth : 1 ≤ month ∧ month ≤ 12) :
    Date.ofYmd? year month 1 = Date.ofNumber? (YearMonth.start ⟨year, month⟩) := by
  have hday := Civil.le_monthLength (Civil.isLeap year) month
  rw [Date.ofYmd?, if_pos ⟨hmonth.1, hmonth.2, Nat.le_refl 1, by omega⟩]
  rfl

theorem firstOfNext?_eq {year : Int} {month : Nat} (hmonth : 1 ≤ month ∧ month ≤ 12) :
    firstOfNext? year month = .ok (Date.ofNumber? (stopOf year month)) := by
  rw [firstOfNext?]
  by_cases hlast : month = 12
  · subst hlast
    have hnone : Civil.daysBeforeMonth (Civil.isLeap (year + 1)) 1 = 0 := by
      cases Civil.isLeap (year + 1) <;> rfl
    have hstart : YearMonth.start ⟨year + 1, 1⟩ = Civil.daysBeforeYear (year + 1) := by
      simp only [YearMonth.start, Civil.numberOf, hnone]
      omega
    rw [if_pos rfl, ofYmd?_first (by decide), stopOf_december, hstart]
    rfl
  · have hstart : YearMonth.start ⟨year, month + 1⟩ = stopOf year month := by
      simp only [YearMonth.start, Civil.numberOf, stopOf]
      omega
    rw [if_neg hlast, uint32_eq (Int.natCast_succ month).symm (by omega), ok_bind,
      ofYmd?_first (by omega), hstart]
    rfl

/-- A month lies in its year, and only December ends with it. -/
theorem stopOf_bounds (year : Int) {month : Nat} (hmonth : 1 ≤ month ∧ month ≤ 12) :
    Civil.daysBeforeYear year + 28 ≤ stopOf year month ∧
      stopOf year month ≤ Civil.daysBeforeYear (year + 1) - if month = 12 then 0 else 28 := by
  have hlong : 28 ≤ YearMonth.length ⟨year, month⟩ := Civil.le_monthLength _ _
  have hbounds := YearMonth.bounds (m := ⟨year, month⟩) hmonth
  have hstop : stopOf year month = _ := stopOf_eq hmonth
  dsimp only at hbounds
  by_cases hlast : month = 12
  · rw [if_pos hlast]
    omega
  · -- the next month starts where this one stops, and lies in the same year
    have hnext : 1 ≤ month + 1 ∧ month + 1 ≤ 12 := by omega
    have hlong' : 28 ≤ YearMonth.length ⟨year, month + 1⟩ := Civil.le_monthLength _ _
    have hbounds' := YearMonth.bounds (m := ⟨year, month + 1⟩) hnext
    have hstart : YearMonth.start ⟨year, month + 1⟩ = stopOf year month := by
      simp only [YearMonth.start, Civil.numberOf, stopOf]
      omega
    dsimp only at hbounds'
    rw [if_neg hlast]
    omega

/-- Of which months the end, and the day before it, lie inside the calendar. -/
theorem stopOf_mem_iff {year : Int} {month : Nat} (hmonth : 1 ≤ month ∧ month ≤ 12) :
    -95745763 ≤ stopOf year month ∧ stopOf year month ≤ 95745764 ↔
      minYear ≤ year ∧ year ≤ maxYear ∧ ¬(year = maxYear ∧ month = 12) := by
  obtain ⟨hfirst, hlast⟩ := Date.bounds_eq
  obtain ⟨hlow, hhigh⟩ := stopOf_bounds year hmonth
  constructor
  · rintro ⟨hge, hle⟩
    refine ⟨?_, ?_, ?_⟩
    · rcases Int.lt_or_le year minYear with hbefore | hge'
      · have := Civil.daysBeforeYear_mono (show year + 1 ≤ minYear by omega)
        omega
      · exact hge'
    · rcases Int.lt_or_le maxYear year with hafter | hle'
      · have := Civil.daysBeforeYear_mono (show maxYear + 1 ≤ year by omega)
        omega
      · exact hle'
    · rintro ⟨rfl, rfl⟩
      rw [stopOf_december] at hle
      omega
  · rintro ⟨hge, hle, hnot⟩
    have hmin := Civil.daysBeforeYear_mono hge
    refine ⟨by omega, ?_⟩
    by_cases hmax : year = maxYear
    · subst hmax
      rw [if_neg fun h => hnot ⟨rfl, h⟩] at hhigh
      omega
    · have := Civil.daysBeforeYear_mono (show year + 1 ≤ maxYear by omega)
      have hlong : Civil.daysBeforeYear maxYear < 95745764 := by decide
      omega

/-- The day before the end of a month has the length of the month for its number. -/
theorem day_of_stop {year : Int} {month : Nat} (hmonth : 1 ≤ month ∧ month ≤ 12) {d : Date}
    (hd : d.number + 1 = stopOf year month) : d.day = Civil.monthLength (Civil.isLeap year) month := by
  have hlong := Civil.le_monthLength (Civil.isLeap year) month
  have hstop : stopOf year month = _ := stopOf_eq hmonth
  simp only [YearMonth.start, YearMonth.length, Civil.numberOf] at hstop
  have hin : d.yearMonth = ⟨year, month⟩ := by
    refine Date.yearMonth_eq hmonth ?_ ?_
    · simp only [YearMonth.start, Civil.numberOf]
      omega
    · simp only [YearMonth.start, YearMonth.length, Civil.numberOf]
      omega
  have hyear : d.year = year := congrArg YearMonth.year hin
  have hmonth' : d.month = month := congrArg YearMonth.month hin
  have hnumber := d.number_eq
  rw [hyear] at hnumber
  rw [Date.day, hyear, hmonth']
  omega

theorem monthLength?_eq (year : Int) (month : Nat) :
    monthLength? year month = .ok (OpeningHours.monthLength? year month) := by
  rw [monthLength?, OpeningHours.monthLength?]
  by_cases hmonth : month < 1 ∨ 12 < month
  · rw [if_pos hmonth, if_neg (by omega)]
    rfl
  · have hmonth' : 1 ≤ month ∧ month ≤ 12 := by omega
    rw [if_neg hmonth, firstOfNext?_eq hmonth', ok_bind, pure_eq_ok]
    congr 1
    by_cases hmem : minYear ≤ year ∧ year ≤ maxYear ∧ ¬(year = maxYear ∧ month = 12)
    · rw [if_pos ⟨hmonth'.1, hmonth'.2, hmem⟩]
      obtain ⟨hge, hle⟩ := (stopOf_mem_iff hmonth').2 hmem
      have hnext : Date.ofNumber? (stopOf year month) = some ⟨stopOf year month, by omega, hle⟩ :=
        Date.ofNumber?_eq_some_iff.2 rfl
      have hlast : Date.add? ⟨stopOf year month, by omega, hle⟩ (-1) =
          some ⟨stopOf year month - 1, by omega, by omega⟩ := Date.add?_eq_some_iff.2 rfl
      rw [hnext, Option.bind_some, hlast, Option.map_some, day_of_stop hmonth' (Int.sub_add_cancel ..)]
    · rw [if_neg fun h => hmem h.2.2]
      rw [← stopOf_mem_iff hmonth'] at hmem
      -- either the month does not end inside the calendar, or no day comes before its end
      rw [Option.map_eq_none_iff, Option.bind_eq_none_iff]
      intro next hnext
      have hnumber := Date.ofNumber?_eq_some_iff.1 hnext
      have hle := next.le_last
      cases hlast : next.add? (-1) with
      | none => rfl
      | some last =>
        have hbefore := Date.add?_eq_some_iff.1 hlast
        have hge := last.first_le
        exact absurd ⟨by omega, by omega⟩ hmem

/-! ## Years of the calendar -/

/-- A year in which the calendar has a date. -/
def IsDateYear (year : Int) : Prop := minYear ≤ year ∧ year ≤ maxYear

theorem isDateYear_year (d : Date) : IsDateYear d.year := by
  obtain ⟨hfirst, hlast⟩ := Date.bounds_eq
  obtain ⟨hle, hlt⟩ := d.year_bounds
  have hge := d.first_le
  have hle' := d.le_last
  constructor
  · rcases Int.lt_or_le d.year minYear with hbefore | hin
    · have := Civil.daysBeforeYear_mono (show d.year + 1 ≤ minYear by omega)
      omega
    · exact hin
  · rcases Int.lt_or_le maxYear d.year with hafter | hin
    · have := Civil.daysBeforeYear_mono (show maxYear + 1 ≤ d.year by omega)
      omega
    · exact hin

theorem IsDateYear.isYear {year : Int} (h : IsDateYear year) : IsYear year := by
  unfold IsDateYear minYear maxYear at h
  unfold IsYear
  omega

/-- The year some years later. No year is moved that has not come with a date. -/
def shiftYear (year shift : Int) : Machine Int := int32 (year + shift)

theorem shiftYear_eq {year shift : Int} (h : IsDateYear year) (hshift : -1 ≤ shift ∧ shift ≤ 1) :
    shiftYear year shift = .ok (year + shift) := by
  unfold IsDateYear minYear maxYear at h
  exact int32_eq (by omega)

theorem isYear_add {year shift : Int} (h : IsDateYear year) (hshift : -1 ≤ shift ∧ shift ≤ 1) :
    IsYear (year + shift) := by
  unfold IsDateYear minYear maxYear at h
  unfold IsYear
  omega

/-! ## Open ranges -/

/-- The month in which an open range runs out; the year after is reckoned whether it is needed or not. -/
def openRangeMonth (start : YearMonth) : Machine YearMonth := do
  let next ← shiftYear start.year 1
  if start.month ≤ 6 then return ⟨start.year, 12⟩
  if start.month ≤ 9 then
    let month ← uint32 (start.month + 8)
    return ⟨next, ← uint32 (month - 12)⟩
  let month ← uint32 (start.month + 6)
  return ⟨next, ← uint32 (month - 12)⟩

/-- The last day of an open range. -/
def openRangeEnd (start : Date) : ExceptT DateFault Machine Date := do
  let last ← openRangeMonth start.yearMonth
  let day? ← monthLength? last.year last.month
  answer (orFault (.noOpenEnd start) (day?.bind fun day => Date.ofYmd? last.year last.month day))

theorem openRangeMonth_eq (d : Date) :
    openRangeMonth d.yearMonth = .ok (OpeningHours.openRangeMonth d.yearMonth) := by
  have hmonth : 1 ≤ d.yearMonth.month ∧ d.yearMonth.month ≤ 12 := d.month_bounds
  have hyear : IsDateYear d.yearMonth.year := isDateYear_year d
  rw [openRangeMonth, shiftYear_eq hyear (by decide), ok_bind, OpeningHours.openRangeMonth]
  by_cases hsix : d.yearMonth.month ≤ 6
  · rw [if_pos hsix, if_pos hsix]
    rfl
  · rw [if_neg hsix, if_neg hsix]
    by_cases hnine : d.yearMonth.month ≤ 9
    · rw [if_pos hnine, if_pos hnine, uint32_eq (n := d.yearMonth.month + 8) (by omega) (by omega), ok_bind,
        uint32_eq (n := d.yearMonth.month - 4) (by omega) (by omega)]
      rfl
    · rw [if_neg hnine, if_neg hnine, uint32_eq (n := d.yearMonth.month + 6) (by omega) (by omega), ok_bind,
        uint32_eq (n := d.yearMonth.month - 6) (by omega) (by omega)]
      rfl

theorem yields_openRangeEnd (start : Date) : Yields (openRangeEnd start) (OpeningHours.openRangeEnd start) := by
  refine .step (openRangeMonth_eq start) ?_
  refine .step (monthLength?_eq _ _) ?_
  exact yields_answer _

/-! ## Points -/

/-- The day that a point names in a month of the given length; a month without days has no place for it. -/
def dayIn (p : DatePoint) (place : RangeEnd) (length : Nat) : Machine Nat :=
  match p.day?, place with
  | some day, _ => clamp day.toNat 1 length
  | none, .first => return 1
  | none, .last => return length

/-- The date that a point names in a year, before it is shifted. -/
def unshiftedIn (p : DatePoint) (place : RangeEnd) (year : Int) (month : Nat) :
    ExceptT DateFault Machine Date :=
  match p.feast? with
  | some .easter => do answer (orFault (.noEaster year) (← easter? year))
  | none => do
    let month := p.monthOr month
    let length ← answer (orFault (.noSuchMonth year month) (← monthLength? year month))
    let day ← dayIn p place length
    answer (orFault (.noSuchDay year month day) (Date.ofYmd? year month day))

/-- The date that a point stands for. A shift that leaves the calendar has no date, which is no breach. -/
def dateIn (p : DatePoint) (place : RangeEnd) (year : Int) (month : Nat) :
    ExceptT DateFault Machine Date := do
  let d ← unshiftedIn p place year month
  answer (orFault (.offsetOutOfRange d) (p.shift? d))

theorem le_of_monthLength? {year : Int} {month length : Nat}
    (h : OpeningHours.monthLength? year month = some length) : IsDateYear year ∧ 1 ≤ length := by
  obtain ⟨⟨_, _, hlow, hhigh, _⟩, rfl⟩ := monthLength?_eq_some_iff.1 h
  have hlong := Civil.le_monthLength (Civil.isLeap year) month
  exact ⟨⟨hlow, hhigh⟩, by omega⟩

theorem dayIn_eq (p : DatePoint) (place : RangeEnd) {length : Nat} (h : 1 ≤ length) :
    dayIn p place length = .ok (p.dayIn place length) := by
  unfold dayIn DatePoint.dayIn
  cases p.day? with
  | some day => exact clamp_eq h
  | none => cases place <;> rfl

theorem yields_unshiftedIn (p : DatePoint) (place : RangeEnd) {year : Int} (month : Nat) (hyear : IsYear year) :
    Yields (unshiftedIn p place year month) (p.unshiftedIn place year month) := by
  unfold unshiftedIn DatePoint.unshiftedIn
  cases p.feast? with
  | some feast =>
    cases feast
    refine .step (easter?_eq hyear) ?_
    exact yields_answer _
  | none =>
    refine .step (monthLength?_eq _ _) ?_
    refine (yields_answer _).bind fun length hlength => ?_
    refine .step (dayIn_eq p place (le_of_monthLength? (orFault_eq_ok_iff.1 hlength)).2) ?_
    exact yields_answer _

theorem yields_dateIn (p : DatePoint) (place : RangeEnd) {year : Int} (month : Nat) (hyear : IsYear year) :
    Yields (dateIn p place year month) (p.dateIn place year month) := by
  refine (yields_unshiftedIn p place month hyear).bind fun d _ => ?_
  exact yields_answer _

/-- Dates are found in years of the calendar alone. -/
theorem isDateYear_of_unshiftedIn {p : DatePoint} {place : RangeEnd} {year : Int} {month : Nat} {d : Date}
    (h : p.unshiftedIn place year month = .ok d) : IsDateYear year :=
  DatePoint.year_of_unshiftedIn h ▸ isDateYear_year d

/-! ## Ranges -/

/-- The span from one point to another, each in a year of its own. -/
def spanIn (start stop : DatePoint) (month : Nat) (startYear stopYear : Int) :
    ExceptT DateFault Machine DaySpan := do
  let first ← dateIn start .first startYear month
  let last ← dateIn stop .last stopYear (start.monthOr month)
  return ⟨first, last⟩

/-- The spans between two points; a year is moved only after a date was found in it. -/
def spansBetween (start stop : DatePoint) (seen : YearMonth) : ExceptT DateFault Machine (List DaySpan) :=
  match start.namedYear?, stop.namedYear? with
  | none, some _ => throw .startYearMissing
  | none, none => do
    let span ← spanIn start stop seen.month seen.year seen.year
    if span.start ≤ span.stop then return [span]
    let next ← shiftYear seen.year 1
    let current ← spanIn start stop seen.month seen.year next
    let before ← shiftYear seen.year (-1)
    let previous ← spanIn start stop seen.month before seen.year
    return [current, previous]
  | some year, none => do
    let span ← spanIn start stop seen.month year year
    if span.start ≤ span.stop then return [span]
    let next ← shiftYear year 1
    let last ← dateIn stop .last next (start.monthOr seen.month)
    if span.start ≤ last then return [⟨span.start, last⟩]
    throw (.startAfterEnd span.start last)
  | some startYear, some stopYear => do
    let span ← spanIn start stop seen.month startYear stopYear
    if span.start ≤ span.stop then return [span]
    throw (.startAfterEnd span.start span.stop)

/-- The span from a point on. -/
def spanOnward (start : DatePoint) (seen : YearMonth) : ExceptT DateFault Machine DaySpan :=
  match start.namedYear? with
  | none => throw .openRangeWithoutYear
  | some year => do
    let first ← dateIn start .first year seen.month
    return ⟨first, ← openRangeEnd first⟩

/-- The span of a single point. -/
def spanAlone (point : DatePoint) (seen : YearMonth) : ExceptT DateFault Machine DaySpan := do
  let year := point.namedYear?.getD seen.year
  let first ← dateIn point .first year seen.month
  if point.isWholeMonth then
    return ⟨first, ← dateIn point .last year seen.month⟩
  return ⟨first, first⟩

/-- The spans of a range, seen from a month. -/
def spans (range : DateRange) (seen : YearMonth) : ExceptT DateFault Machine (List DaySpan) :=
  match range.stop? with
  | some stop => spansBetween range.start stop seen
  | none => do
    if range.openEnded then return [← spanOnward range.start seen]
    return [← spanAlone range.start seen]

theorem isYear_of_namedYear? {p : DatePoint} {year : Int} (h : p.namedYear? = some year) : IsYear year := by
  obtain ⟨y, _, rfl⟩ := Option.map_eq_some_iff.1 h
  have hlow := y.le_toInt
  have hhigh := y.toInt_lt
  unfold IsYear
  omega

theorem yields_spanIn (start stop : DatePoint) (month : Nat) {startYear stopYear : Int}
    (hstart : IsYear startYear) (hstop : IsYear stopYear) :
    Yields (spanIn start stop month startYear stopYear)
      (DateRange.spanIn start stop month startYear stopYear) := by
  refine (yields_dateIn start .first month hstart).bind fun first _ => ?_
  refine (yields_dateIn stop .last _ hstop).bind fun last _ => ?_
  exact yields_pure _

theorem isDateYear_of_spanIn {start stop : DatePoint} {month : Nat} {startYear stopYear : Int} {span : DaySpan}
    (h : DateRange.spanIn start stop month startYear stopYear = .ok span) : IsDateYear startYear := by
  obtain ⟨first, hfirst, _⟩ := bind_eq_ok_iff.1 h
  obtain ⟨d, hd, _⟩ := bind_eq_ok_iff.1 hfirst
  exact isDateYear_of_unshiftedIn hd

theorem yields_spansBetween (start stop : DatePoint) {seen : YearMonth} (hseen : IsDateYear seen.year) :
    Yields (spansBetween start stop seen) (DateRange.spansBetween start stop seen) := by
  unfold spansBetween DateRange.spansBetween
  cases hstart : start.namedYear? with
  | none =>
    cases stop.namedYear? with
    | some _ => exact yields_throw _
    | none =>
      refine (yields_spanIn start stop seen.month hseen.isYear hseen.isYear).bind fun span _ => ?_
      by_cases hspan : span.start ≤ span.stop
      · rw [if_pos hspan, if_pos hspan]
        exact yields_pure _
      · rw [if_neg hspan, if_neg hspan]
        have hnext : IsYear (seen.year + 1) := isYear_add hseen (by decide)
        have hbefore : IsYear (seen.year + -1) := isYear_add hseen (by decide)
        refine .step (shiftYear_eq hseen (by decide)) ?_
        refine (yields_spanIn start stop seen.month hseen.isYear hnext).bind fun current _ => ?_
        refine .step (shiftYear_eq hseen (by decide)) ?_
        refine (yields_spanIn start stop seen.month hbefore hseen.isYear).bind fun previous _ => ?_
        exact yields_pure _
  | some year =>
    have hyear := isYear_of_namedYear? hstart
    cases hstop : stop.namedYear? with
    | none =>
      refine (yields_spanIn start stop seen.month hyear hyear).bind fun span hfound => ?_
      by_cases hspan : span.start ≤ span.stop
      · rw [if_pos hspan, if_pos hspan]
        exact yields_pure _
      · rw [if_neg hspan, if_neg hspan]
        -- the year may be the largest of 32 bits, but then no span was found in it
        have hdate := isDateYear_of_spanIn hfound
        refine .step (shiftYear_eq hdate (by decide)) ?_
        refine (yields_dateIn stop .last _ (isYear_add hdate (by decide))).bind fun last _ => ?_
        by_cases hlast : span.start ≤ last
        · rw [if_pos hlast, if_pos hlast]
          exact yields_pure _
        · rw [if_neg hlast, if_neg hlast]
          exact yields_throw _
    | some stopYear =>
      refine (yields_spanIn start stop seen.month hyear (isYear_of_namedYear? hstop)).bind fun span _ => ?_
      by_cases hspan : span.start ≤ span.stop
      · rw [if_pos hspan, if_pos hspan]
        exact yields_pure _
      · rw [if_neg hspan, if_neg hspan]
        exact yields_throw _

theorem yields_spanOnward (start : DatePoint) (seen : YearMonth) :
    Yields (spanOnward start seen) (DateRange.spanOnward start seen) := by
  unfold spanOnward DateRange.spanOnward
  cases hstart : start.namedYear? with
  | none => exact yields_throw _
  | some year =>
    refine (yields_dateIn start .first seen.month (isYear_of_namedYear? hstart)).bind fun first _ => ?_
    refine (yields_openRangeEnd first).bind fun last _ => ?_
    exact yields_pure _

theorem yields_spanAlone (point : DatePoint) {seen : YearMonth} (hseen : IsDateYear seen.year) :
    Yields (spanAlone point seen) (DateRange.spanAlone point seen) := by
  have hyear : IsYear (point.namedYear?.getD seen.year) := by
    cases hnamed : point.namedYear? with
    | none => exact hseen.isYear
    | some year => exact isYear_of_namedYear? hnamed
  refine (yields_dateIn point .first seen.month hyear).bind fun first _ => ?_
  cases point.isWholeMonth with
  | false => exact yields_pure _
  | true =>
    refine (yields_dateIn point .last seen.month hyear).bind fun last _ => ?_
    exact yields_pure _

theorem yields_spans (range : DateRange) {seen : YearMonth} (hseen : IsDateYear seen.year) :
    Yields (spans range seen) (range.spans seen) := by
  unfold spans DateRange.spans
  cases range.stop? with
  | some stop => exact yields_spansBetween range.start stop hseen
  | none =>
    cases range.openEnded with
    | true =>
      refine (yields_spanOnward range.start seen).bind fun span _ => ?_
      exact yields_pure _
    | false =>
      refine (yields_spanAlone range.start hseen).bind fun span _ => ?_
      exact yields_pure _

end OpeningHours.Machine
