import OpeningHours.Proofs.SpanOrder

/-!
# Ranges that come round every year

Neither end of such a range names a year or is shifted. Each then has one date in every year, and a
day of the year `y` is in the range or not by the dates that the ends have in `y`: between them if
they are in order, and not between them if the range runs over the turn of the year.

In the second case the spans are made with the dates that the start has in `y - 1` and the end in
`y + 1` as well. A leap year may put these at another day of the month than in `y`. It makes no
difference, as they lie in another year than the day, the one before it and the other after it.
-/

namespace OpeningHours

namespace DatePoint

variable {p : DatePoint} {month : Nat} {d : Date}

/-- A point that names a month, and no year, and is not shifted. -/
structure IsAnnual (p : DatePoint) (month : Nat) : Prop where
  no_year : p.year? = none
  month_eq : p.month?.map UInt32.toNat = some month
  month_bounds : 1 ≤ month ∧ month ≤ 12
  no_feast : p.feast? = none
  no_weekdayShift : p.weekdayShift? = none
  no_dayOffset : p.dayOffset = 0

theorem dayIn_first (p : DatePoint) (length : Nat) :
    p.dayIn .first length = p.day?.elim 1 fun day => min (max day.toNat 1) length := by
  unfold dayIn
  cases p.day? <;> rfl

theorem dayIn_last (p : DatePoint) (length : Nat) :
    p.dayIn .last length = p.day?.elim length fun day => min (max day.toNat 1) length := by
  unfold dayIn
  cases p.day? <;> rfl

theorem IsAnnual.namedYear? (h : p.IsAnnual month) : p.namedYear? = none :=
  namedYear?_eq_none h.no_year

theorem IsAnnual.shift? (h : p.IsAnnual month) : p.shift? d = some d := by
  refine shift?_eq_some_iff.2 ⟨d, ?_, ?_⟩
  · rw [h.no_dayOffset]
    exact (Int.add_zero _).symm
  · rw [h.no_weekdayShift]

/-- Such a point has a date in every year of the calendar but the last. -/
theorem IsAnnual.exists_dateIn (h : p.IsAnnual month) (place : RangeEnd) (year : Int)
    (hyear : minYear ≤ year ∧ year < maxYear) :
    ∃ e, (∀ seen, p.dateIn place year seen = .ok e) ∧ e.yearMonth = ⟨year, month⟩ ∧
      e.day = p.dayIn place (Civil.monthLength (Civil.isLeap year) month) := by
  have hmonth : ∀ seen, p.monthOr seen = month := by
    intro seen
    unfold monthOr
    rw [h.month_eq]
    rfl
  have hbounds : 1 ≤ p.monthOr month ∧ p.monthOr month ≤ 12 := by
    rw [hmonth]
    exact h.month_bounds
  obtain ⟨e, he, hdate, hday⟩ := exists_unshiftedIn place h.no_feast hbounds hyear
  rw [hmonth] at hdate hday
  refine ⟨e, fun seen => dateIn_eq_ok_iff.2 ⟨e, ?_, h.shift?⟩, hdate, hday⟩
  rw [unshiftedIn_congr ((hmonth seen).trans (hmonth month).symm)]
  exact he

end DatePoint

namespace DateRange

variable {range : DateRange} {stop : DatePoint} {seen : YearMonth} {m n : Nat} {d : Date}

/-- Ends that are in order in the year a range is seen from give the span between them. -/
theorem spans_of_le {first last : Date} (hrange : range.stop? = some stop)
    (hstart : range.start.namedYear? = none) (hstop : stop.namedYear? = none)
    (hspan : spanIn range.start stop seen.month seen.year seen.year = .ok ⟨first, last⟩)
    (hle : first ≤ last) : range.spans seen = .ok [⟨first, last⟩] := by
  unfold DateRange.spans
  rw [hrange]
  dsimp only
  unfold spansBetween
  rw [hstart, hstop]
  dsimp only
  rw [hspan]
  exact if_pos hle

/-- Otherwise there are two spans, one with each end in that year. -/
theorem spans_of_not_le {first last : Date} {current previous : DaySpan}
    (hrange : range.stop? = some stop) (hstart : range.start.namedYear? = none)
    (hstop : stop.namedYear? = none)
    (hspan : spanIn range.start stop seen.month seen.year seen.year = .ok ⟨first, last⟩)
    (hgt : ¬first ≤ last)
    (hcurrent : spanIn range.start stop seen.month seen.year (seen.year + 1) = .ok current)
    (hprevious : spanIn range.start stop seen.month (seen.year - 1) seen.year = .ok previous) :
    range.spans seen = .ok [current, previous] := by
  unfold DateRange.spans
  rw [hrange]
  dsimp only
  unfold spansBetween
  rw [hstart, hstop]
  dsimp only
  rw [hspan, hcurrent, hprevious]
  exact if_neg hgt

/--
**A range without years is annual.**

The two ends of the range name months, and days of them perhaps, but no years, and are not shifted.
Seen from a day `d` it comes to spans of days, whatever the two ends are. Let `first` be the date of
the start in the year of `d` and `last` that of the end. Then `d` lies in one of the spans exactly
when it lies between `first` and `last`, or, if these are the other way round, when it comes after
the start or before the end.
-/
theorem spans_annual (hrange : range.stop? = some stop) (hstart : range.start.IsAnnual m)
    (hstop : stop.IsAnnual n) (hyear : minYear < d.year - 1 ∧ d.year + 1 < maxYear) :
    ∃ first last spans,
      (first.yearMonth = ⟨d.year, m⟩ ∧ first.day = range.start.day?.elim 1 fun day =>
        min (max day.toNat 1) (Civil.monthLength (Civil.isLeap d.year) m)) ∧
      (last.yearMonth = ⟨d.year, n⟩ ∧ last.day =
        stop.day?.elim (Civil.monthLength (Civil.isLeap d.year) n) fun day =>
          min (max day.toNat 1) (Civil.monthLength (Civil.isLeap d.year) n)) ∧
      range.spans d.yearMonth = .ok spans ∧
      ((∃ s ∈ spans, s.contains d = true) ↔
        first ≤ last ∧ (first ≤ d ∧ d ≤ last) ∨ last < first ∧ (first ≤ d ∨ d ≤ last)) := by
  obtain ⟨first, hfirst, hfirstMonth, hfirstDay⟩ :=
    hstart.exists_dateIn .first d.year (by omega)
  obtain ⟨last, hlast, hlastMonth, hlastDay⟩ := hstop.exists_dateIn .last d.year (by omega)
  obtain ⟨before, hbefore, hbeforeMonth, _⟩ :=
    hstart.exists_dateIn .first (d.year - 1) (by omega)
  obtain ⟨after, hafter, hafterMonth, _⟩ :=
    hstop.exists_dateIn .last (d.year + 1) (by omega)
  rw [DatePoint.dayIn_first] at hfirstDay
  rw [DatePoint.dayIn_last] at hlastDay
  have hspan : spanIn range.start stop d.month d.year d.year = .ok ⟨first, last⟩ :=
    spanIn_eq_ok_iff.2 ⟨hfirst _, hlast _⟩
  by_cases hle : first ≤ last
  · have hspans : range.spans d.yearMonth = .ok [⟨first, last⟩] :=
      spans_of_le hrange hstart.namedYear? hstop.namedYear? hspan hle
    refine ⟨first, last, _, ⟨hfirstMonth, hfirstDay⟩, ⟨hlastMonth, hlastDay⟩, hspans, ?_⟩
    rw [Date.le_iff] at hle
    simp only [List.mem_singleton, exists_eq_left, DaySpan.contains_iff, Date.le_iff, Date.lt_iff]
    omega
  · have hcurrent : spanIn range.start stop d.month d.year (d.year + 1) = .ok ⟨first, after⟩ :=
      spanIn_eq_ok_iff.2 ⟨hfirst _, hafter _⟩
    have hprevious : spanIn range.start stop d.month (d.year - 1) d.year = .ok ⟨before, last⟩ :=
      spanIn_eq_ok_iff.2 ⟨hbefore _, hlast _⟩
    have hspans : range.spans d.yearMonth = .ok [⟨first, after⟩, ⟨before, last⟩] :=
      spans_of_not_le hrange hstart.namedYear? hstop.namedYear? hspan hle hcurrent hprevious
    refine ⟨first, last, _, ⟨hfirstMonth, hfirstDay⟩, ⟨hlastMonth, hlastDay⟩, hspans, ?_⟩
    -- the ends that are not in the year of `d` do not bound it
    have hyearBefore : before.year = d.year - 1 := congrArg YearMonth.year hbeforeMonth
    have hyearAfter : after.year = d.year + 1 := congrArg YearMonth.year hafterMonth
    have hlow : before < d := Date.lt_of_year_lt (by omega)
    have hhigh : d < after := Date.lt_of_year_lt (by omega)
    rw [Date.le_iff] at hle
    rw [Date.lt_iff] at hlow hhigh
    simp only [List.mem_cons, List.not_mem_nil, or_false, exists_eq_or_imp, exists_eq_left,
      DaySpan.contains_iff, Date.le_iff, Date.lt_iff]
    omega

/-- From 15 November to the end of February. -/
def winter : DateRange := .between (.ofMonthDay 11 15) (.ofMonth 2)

/-- In a leap year the last day of February is in the winter. -/
theorem spans_annual_winter :
    ∃ spans, winter.spans ⟨2020, 2⟩ = .ok spans ∧
      ∃ s ∈ spans, s.contains ⟨737849, by decide, by decide⟩ = true := by
  have hstart : winter.start.IsAnnual 11 := ⟨rfl, rfl, by decide, rfl, rfl, rfl⟩
  have hstop : (DatePoint.ofMonth 2).IsAnnual 2 := ⟨rfl, rfl, by decide, rfl, rfl, rfl⟩
  obtain ⟨first, last, spans, ⟨hfirst, _⟩, ⟨hlast, hday⟩, hspans, hiff⟩ :=
    spans_annual (d := ⟨737849, by decide, by decide⟩) rfl hstart hstop (by decide)
  have hnumber : last.number = 737849 := by
    have hyear : last.year = 2020 := congrArg YearMonth.year hlast
    have hmonth : last.month = 2 := congrArg YearMonth.month hlast
    rw [last.number_eq_numberOf, hyear, hmonth, hday]
    rfl
  have hlate : 738095 ≤ first.number := by
    have hsurrounds := first.yearMonth_surrounds.1
    rw [hfirst] at hsurrounds
    exact hsurrounds
  refine ⟨spans, hspans, hiff.2 (.inr ⟨?_, .inr ?_⟩)⟩
  · rw [Date.lt_iff]
    omega
  · rw [Date.le_iff]
    exact Int.le_of_eq hnumber.symm

end DateRange

end OpeningHours
