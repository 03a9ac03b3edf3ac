import OpeningHours.Proofs.Calendar
import OpeningHours.Proofs.WeekPlan
import OpeningHours.Proofs.WeekdayShift

/-!
# The date that a point of a range stands for

A point is first looked up in a year, which gives a date of that very year, and is then shifted,
to a weekday and by days. The two steps are kept apart here. Of the first it matters that a later
year gives a later date. Of the second it matters that it keeps the order of dates, and that it
goes so many days at least and so many at most.
-/

namespace OpeningHours

theorem orFault_eq_ok_iff {α : Type} {fault : DateFault} {a? : Option α} {a : α} :
    orFault fault a? = .ok a ↔ a? = some a := by
  cases a? <;> simp [orFault]

/-! ## Dates of a year -/

theorem monthLength?_eq_some_iff {year : Int} {month length : Nat} :
    monthLength? year month = some length ↔
      (1 ≤ month ∧ month ≤ 12 ∧ minYear ≤ year ∧ year ≤ maxYear ∧ ¬(year = maxYear ∧ month = 12)) ∧
        Civil.monthLength (Civil.isLeap year) month = length := by
  unfold monthLength?
  split
  · rename_i hin
    exact ⟨fun h => ⟨hin, Option.some.inj h⟩, fun h => congrArg some h.2⟩
  · rename_i hout
    exact ⟨fun h => absurd h (by simp), fun h => absurd h.1 hout⟩

namespace Date

variable {d e : Date} {year : Int} {month day : Nat}

theorem year_bounds (d : Date) :
    Civil.daysBeforeYear d.year ≤ d.number ∧ d.number < Civil.daysBeforeYear (d.year + 1) :=
  ⟨Civil.daysBeforeYear_yearOf_le d.number, Civil.lt_daysBeforeYear_succ_yearOf d.number⟩

theorem lt_of_year_lt (h : d.year < e.year) : d < e := by
  have hd := d.year_bounds
  have he := e.year_bounds
  have hmono := Civil.daysBeforeYear_mono (show d.year + 1 ≤ e.year by omega)
  rw [lt_iff]
  omega

theorem ofYmd?_eq_some_iff :
    ofYmd? year month day = some d ↔
      ((1 ≤ month ∧ month ≤ 12) ∧ 1 ≤ day ∧ day ≤ Civil.monthLength (Civil.isLeap year) month) ∧
        d.number = Civil.numberOf year month day := by
  unfold ofYmd?
  split
  · rename_i hin
    rw [ofNumber?_eq_some_iff]
    exact ⟨fun h => ⟨⟨⟨hin.1, hin.2.1⟩, hin.2.2⟩, h⟩, fun h => h.2⟩
  · rename_i hout
    exact ⟨fun h => absurd h (by simp), fun h => absurd ⟨h.1.1.1, h.1.1.2, h.1.2⟩ hout⟩

theorem yearMonth_of_ofYmd? (h : ofYmd? year month day = some d) : d.yearMonth = ⟨year, month⟩ := by
  obtain ⟨⟨hmonth, hday⟩, hnumber⟩ := ofYmd?_eq_some_iff.1 h
  unfold Civil.numberOf at hnumber
  refine yearMonth_eq hmonth ?_ ?_
  · simp only [YearMonth.start, Civil.numberOf]
    omega
  · simp only [YearMonth.start, YearMonth.length, Civil.numberOf]
    omega

/-- A date is told by its year, its month and its day of the month. -/
theorem number_eq_numberOf (d : Date) : d.number = Civil.numberOf d.year d.month d.day := by
  have hplace := d.number_eq
  have hmonth := Civil.daysBeforeMonth_monthOf_le (Civil.isLeap d.year) d.dayOfYear d.dayOfYear_lt
  change Civil.daysBeforeMonth (Civil.isLeap d.year) d.month ≤ d.dayOfYear at hmonth
  unfold Civil.numberOf Date.day
  omega

theorem day_of_ofYmd? (h : ofYmd? year month day = some d) : d.day = day := by
  obtain ⟨_, hnumber⟩ := ofYmd?_eq_some_iff.1 h
  have hyear : d.year = year := congrArg YearMonth.year (yearMonth_of_ofYmd? h)
  have hmonth : d.month = month := congrArg YearMonth.month (yearMonth_of_ofYmd? h)
  rw [number_eq_numberOf, hyear, hmonth] at hnumber
  unfold Civil.numberOf at hnumber
  omega

/-- What the date of a year, a month and a day is told by. -/
theorem ofYmd?_spec (h : ofYmd? year month day = some d) :
    d.number = Civil.numberOf year month day ∧ d.year = year ∧ d.month = month ∧ d.day = day :=
  ⟨(ofYmd?_eq_some_iff.1 h).2, congrArg YearMonth.year (yearMonth_of_ofYmd? h),
    congrArg YearMonth.month (yearMonth_of_ofYmd? h), day_of_ofYmd? h⟩

/-- Every day of every month of a year of the calendar is a date. -/
theorem exists_ofYmd? (hyear : minYear ≤ year ∧ year ≤ maxYear) (hmonth : 1 ≤ month ∧ month ≤ 12)
    (hday : 1 ≤ day ∧ day ≤ Civil.monthLength (Civil.isLeap year) month) :
    ∃ d, ofYmd? year month day = some d := by
  obtain ⟨hfirst, hlast⟩ := bounds_eq
  obtain ⟨hlow, hhigh⟩ := YearMonth.bounds (m := ⟨year, month⟩) hmonth
  have hmin := Civil.daysBeforeYear_mono hyear.1
  have hmax := Civil.daysBeforeYear_mono (show year + 1 ≤ maxYear + 1 by omega)
  simp only [YearMonth.start, YearMonth.length, Civil.numberOf] at hlow hhigh
  refine ⟨⟨Civil.numberOf year month day, ?_, ?_⟩, ofYmd?_eq_some_iff.2 ⟨⟨hmonth, hday⟩, rfl⟩⟩
  · unfold Civil.numberOf
    omega
  · unfold Civil.numberOf
    omega

end Date

/-! ## Points -/

namespace DatePoint

variable {p q : DatePoint} {place place' : RangeEnd} {year year' : Int} {month month' : Nat}
  {d d' e e' : Date}

/-- How many days a point is shifted at least, whatever the date it is looked up at. -/
def leastShift (p : DatePoint) : Int :=
  p.dayOffset.toInt + match p.weekdayShift? with
    | none => 0
    | some ⟨_, .next⟩ => 1
    | some ⟨_, .previous⟩ => -7

/-- How many days a point is shifted at most. -/
def mostShift (p : DatePoint) : Int :=
  p.dayOffset.toInt + match p.weekdayShift? with
    | none => 0
    | some ⟨_, .next⟩ => 7
    | some ⟨_, .previous⟩ => -1

/-- A point is shifted alike, or so little farther that it cannot get past a later date. -/
def ShiftsWithin (p q : DatePoint) : Prop :=
  p.weekdayShift? = q.weekdayShift? ∧ p.dayOffset = q.dayOffset ∨ p.mostShift ≤ q.leastShift + 1

theorem shift?_eq_some_iff :
    p.shift? d = some e ↔ ∃ nearest : Date, e.number = nearest.number + p.dayOffset.toInt ∧
      match p.weekdayShift? with
      | none => nearest = d
      | some shift => d.nearestWeekday? shift.weekday shift.direction = some nearest := by
  unfold shift?
  cases p.weekdayShift? with
  | none =>
      refine Date.add?_eq_some_iff.trans ⟨fun h => ⟨d, h, rfl⟩, ?_⟩
      rintro ⟨_, h, rfl⟩
      exact h
  | some shift =>
      refine Option.bind_eq_some_iff.trans (exists_congr fun nearest => ?_)
      rw [Date.add?_eq_some_iff, and_comm]

theorem shift?_bounds (h : p.shift? d = some e) :
    d.number + p.leastShift ≤ e.number ∧ e.number ≤ d.number + p.mostShift := by
  obtain ⟨nearest, hoffset, hnearest⟩ := shift?_eq_some_iff.1 h
  unfold leastShift mostShift
  cases hshift : p.weekdayShift? with
  | none =>
      rw [hshift] at hnearest
      obtain rfl := hnearest
      dsimp only
      omega
  | some shift =>
      obtain ⟨weekday, direction⟩ := shift
      rw [hshift] at hnearest
      have hbounds := Date.nearestWeekday?_bounds hnearest
      cases direction <;> dsimp only at hbounds ⊢ <;> omega

/-- A date shifted no farther than a later one does not get past it. -/
theorem le_of_shift? (hshift : p.ShiftsWithin q) (hlt : d < d') (h : p.shift? d = some e)
    (h' : q.shift? d' = some e') : e ≤ e' := by
  rw [Date.lt_iff] at hlt
  rcases hshift with ⟨hweekday, hdays⟩ | hless
  · obtain ⟨nearest, hoffset, hnearest⟩ := shift?_eq_some_iff.1 h
    obtain ⟨nearest', hoffset', hnearest'⟩ := shift?_eq_some_iff.1 h'
    rw [← hdays] at hoffset'
    have hle : nearest ≤ nearest' := by
      rw [← hweekday] at hnearest'
      cases hw : p.weekdayShift? with
      | none =>
          rw [hw] at hnearest hnearest'
          obtain rfl := hnearest
          obtain rfl := hnearest'
          exact Date.le_iff.2 (Int.le_of_lt hlt)
      | some shift =>
          rw [hw] at hnearest hnearest'
          exact Date.nearestWeekday?_mono (Date.le_iff.2 (Int.le_of_lt hlt)) hnearest hnearest'
    rw [Date.le_iff] at hle ⊢
    omega
  · have hbounds := shift?_bounds h
    have hbounds' := shift?_bounds h'
    rw [Date.le_iff]
    omega

theorem namedYear?_eq_none (h : p.year? = none) : p.namedYear? = none := by
  unfold namedYear?
  rw [h]
  rfl

theorem dateIn_eq_ok_iff :
    p.dateIn place year month = .ok e ↔
      ∃ d, p.unshiftedIn place year month = .ok d ∧ p.shift? d = some e := by
  unfold dateIn
  rw [bind_eq_ok_iff]
  exact exists_congr fun d => and_congr_right fun _ => orFault_eq_ok_iff

/-- What a point without a feast names in a year. -/
theorem unshiftedIn_eq_ok_iff_of_no_feast (h : p.feast? = none) :
    p.unshiftedIn place year month = .ok d ↔
      ∃ length, monthLength? year (p.monthOr month) = some length ∧
        Date.ofYmd? year (p.monthOr month) (p.dayIn place length) = some d := by
  unfold unshiftedIn
  rw [h]
  dsimp only
  rw [bind_eq_ok_iff]
  exact exists_congr fun length => and_congr orFault_eq_ok_iff orFault_eq_ok_iff

/-- The month being looked at matters only as far as the point names none. -/
theorem unshiftedIn_congr (h : p.monthOr month = p.monthOr month') :
    p.unshiftedIn place year month = p.unshiftedIn place year month' := by
  unfold unshiftedIn
  rw [h]

theorem dayIn_bounds (p : DatePoint) (place : RangeEnd) {length : Nat} (h : 1 ≤ length) :
    1 ≤ p.dayIn place length ∧ p.dayIn place length ≤ length := by
  unfold dayIn
  cases p.day? with
  | none => cases place <;> dsimp only <;> omega
  | some day =>
      dsimp only
      omega

/-- A point without a feast names a date in every year but the last, if its month exists. -/
theorem exists_unshiftedIn (place : RangeEnd) (hfeast : p.feast? = none)
    (hmonth : 1 ≤ p.monthOr month ∧ p.monthOr month ≤ 12) (hyear : minYear ≤ year ∧ year < maxYear) :
    ∃ d, p.unshiftedIn place year month = .ok d ∧ d.yearMonth = ⟨year, p.monthOr month⟩ ∧
      d.day = p.dayIn place (Civil.monthLength (Civil.isLeap year) (p.monthOr month)) := by
  have hlong := Civil.le_monthLength (Civil.isLeap year) (p.monthOr month)
  have hday := p.dayIn_bounds place
    (show 1 ≤ Civil.monthLength (Civil.isLeap year) (p.monthOr month) by omega)
  obtain ⟨d, hd⟩ := Date.exists_ofYmd? ⟨hyear.1, Int.le_of_lt hyear.2⟩ hmonth hday
  refine ⟨d, (unshiftedIn_eq_ok_iff_of_no_feast hfeast).2 ⟨_, ?_, hd⟩, Date.yearMonth_of_ofYmd? hd,
    Date.day_of_ofYmd? hd⟩
  obtain ⟨hone, htwelve⟩ := hmonth
  refine monthLength?_eq_some_iff.2 ⟨⟨hone, htwelve, hyear.1, Int.le_of_lt hyear.2, ?_⟩, rfl⟩
  exact fun hlast => Int.ne_of_lt hyear.2 hlast.1

/-- A point is looked up in the year it is asked for. -/
theorem year_of_unshiftedIn (h : p.unshiftedIn place year month = .ok d) : d.year = year := by
  cases hfeast : p.feast? with
  | some feast =>
      cases feast
      unfold unshiftedIn at h
      rw [hfeast] at h
      exact congrArg YearMonth.year (Date.yearMonth_of_ofYmd? (orFault_eq_ok_iff.1 h))
  | none =>
      obtain ⟨_, _, hdate⟩ := (unshiftedIn_eq_ok_iff_of_no_feast hfeast).1 h
      exact congrArg YearMonth.year (Date.yearMonth_of_ofYmd? hdate)

/-- A point of a later year is not overtaken by one that is shifted no farther. -/
theorem le_of_dateIn (hshift : p.ShiftsWithin q) (hyear : year < year')
    (h : p.dateIn place year month = .ok e) (h' : q.dateIn place' year' month' = .ok e') : e ≤ e' := by
  obtain ⟨d, hd, hde⟩ := dateIn_eq_ok_iff.1 h
  obtain ⟨d', hd', hde'⟩ := dateIn_eq_ok_iff.1 h'
  refine le_of_shift? hshift (Date.lt_of_year_lt ?_) hde hde'
  rw [year_of_unshiftedIn hd, year_of_unshiftedIn hd']
  exact hyear

end DatePoint

end OpeningHours
