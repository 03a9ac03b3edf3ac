import OpeningHours.Proofs.AnnualRange
import OpeningHours.Proofs.Easter

/-!
# Ranges without years, seen from another year

A range without years is looked up in the year it is seen from and, where its end comes before its
start there, in the years next to it as well. Seen from any year it should pick the same days. That
is, a day in one of its spans should be in one of those seen from the day's own year.

From year to year both the starts and the ends of a range come later. So no span of any year lies
between the two that are seen from the day's own year: it would start before this year and end
after it. What is missed is before the first start seen from there, or after the last end. That
takes an end shifted out of its year, as the Sunday after 31 December is, or a range that is in
order in one year and not in the next, as one from 10 April to Easter may be.
-/

namespace OpeningHours

namespace Date

variable {d e : Date}

theorem year_le_of_le (h : d ≤ e) : d.year ≤ e.year := by
  refine Int.not_lt.1 fun hlt => ?_
  have hbefore := lt_of_year_lt hlt
  rw [lt_iff] at hbefore
  rw [le_iff] at h
  omega

end Date

/-! ## Points shifted by about a month -/

namespace DatePoint

variable {p : DatePoint} {place : RangeEnd} {year other : Int} {month : Nat} {d e : Date}

/-- A point that names no year and is shifted by 31 days at most, a shift to a weekday apart. -/
structure IsYearly (p : DatePoint) : Prop where
  no_year : p.year? = none
  dayOffset_bounds : -31 ≤ p.dayOffset.toInt ∧ p.dayOffset.toInt ≤ 31

theorem IsYearly.namedYear? (h : p.IsYearly) : p.namedYear? = none := namedYear?_eq_none h.no_year

theorem IsYearly.shift_bounds (h : p.IsYearly) : -38 ≤ p.leastShift ∧ p.mostShift ≤ 38 := by
  obtain ⟨hlow, hhigh⟩ := h.dayOffset_bounds
  unfold leastShift mostShift
  cases p.weekdayShift? with
  | none =>
      dsimp only
      omega
  | some shift =>
      obtain ⟨weekday, direction⟩ := shift
      cases direction <;> dsimp only <;> omega

/-- Such a point comes to lie in the year it is looked up in, or in one next to it. -/
theorem IsYearly.year_of_dateIn (h : p.IsYearly) (he : p.dateIn place year month = .ok e) :
    year - 1 ≤ e.year ∧ e.year ≤ year + 1 := by
  obtain ⟨d, hd, hshift⟩ := dateIn_eq_ok_iff.1 he
  have hyear := year_of_unshiftedIn hd
  obtain ⟨hlow, hhigh⟩ := shift?_bounds hshift
  obtain ⟨hleast, hmost⟩ := h.shift_bounds
  have hd := d.year_bounds
  have he := e.year_bounds
  have hbefore := Civil.daysBeforeYear_succ (year - 1)
  have hafter := Civil.daysBeforeYear_succ (year + 1)
  rw [Int.sub_add_cancel] at hbefore
  rw [hyear] at hd
  unfold Civil.yearLength at hbefore hafter
  refine ⟨Int.not_lt.1 fun hlt => ?_, Int.not_lt.1 fun hlt => ?_⟩
  · have hmono := Civil.daysBeforeYear_mono (show e.year + 1 ≤ year - 1 by omega)
    split at hbefore <;> omega
  · have hmono := Civil.daysBeforeYear_mono (show year + 1 + 1 ≤ e.year by omega)
    split at hafter <;> omega

/-- There is room for the shift in every year of the calendar but the first and the last. -/
theorem IsYearly.exists_shift? (h : p.IsYearly) (hyear : minYear < d.year ∧ d.year < maxYear) :
    ∃ e, p.shift? d = some e := by
  obtain ⟨hleast, hmost⟩ := h.dayOffset_bounds
  obtain ⟨hlow, hhigh⟩ := d.year_bounds
  have hfirst := Civil.daysBeforeYear_mono (show minYear + 1 ≤ d.year by omega)
  have hlast := Civil.daysBeforeYear_mono (show d.year + 1 ≤ maxYear by omega)
  have hroom : Civil.daysBeforeYear (minYear + 1) = -95745764 + 365 ∧
      Civil.daysBeforeYear maxYear = 95745764 + 1 - 365 := by decide
  unfold shift?
  cases p.weekdayShift? with
  | none => exact Date.exists_add? (by omega)
  | some shift =>
      obtain ⟨nearest, hnearest⟩ := Date.exists_nearestWeekday? (d := d) (by omega) shift.weekday
        shift.direction
      have hbounds := Date.nearestWeekday?_bounds hnearest
      have hnear : d.number - 7 ≤ nearest.number ∧ nearest.number ≤ d.number + 7 := by
        split at hbounds <;> omega
      obtain ⟨e, he⟩ : ∃ e, nearest.add? p.dayOffset.toInt = some e := Date.exists_add? (by omega)
      exact ⟨e, Option.bind_eq_some_iff.2 ⟨nearest, hnearest, he⟩⟩

/-- A point that has a date in one year has one in every year but the first and the last. -/
theorem IsYearly.exists_dateIn (h : p.IsYearly) (he : p.dateIn place year month = .ok e)
    (hother : minYear < other ∧ other < maxYear) : ∃ e', p.dateIn place other month = .ok e' := by
  have hbase : ∃ d, p.unshiftedIn place other month = .ok d := by
    cases hfeast : p.feast? with
    | some feast =>
        cases feast
        obtain ⟨d, hd, _⟩ := Computus.exists_easter? (show minYear ≤ other ∧ other ≤ maxYear by omega)
        refine ⟨d, ?_⟩
        unfold unshiftedIn
        rw [hfeast]
        exact orFault_eq_ok_iff.2 hd
    | none =>
        -- the month exists, as it does in the year where the point has a date
        obtain ⟨_, hunshifted, _⟩ := dateIn_eq_ok_iff.1 he
        obtain ⟨_, hlength, _⟩ := (unshiftedIn_eq_ok_iff_of_no_feast hfeast).1 hunshifted
        obtain ⟨⟨hone, htwelve, _⟩, _⟩ := monthLength?_eq_some_iff.1 hlength
        obtain ⟨d, hd, _⟩ := exists_unshiftedIn place hfeast ⟨hone, htwelve⟩
          (show minYear ≤ other ∧ other < maxYear by omega)
        exact ⟨d, hd⟩
  obtain ⟨d, hd⟩ := hbase
  have hyear := year_of_unshiftedIn hd
  obtain ⟨e', he'⟩ := h.exists_shift? (d := d) (by omega)
  exact ⟨e', dateIn_eq_ok_iff.2 ⟨d, hd, he'⟩⟩

end DatePoint

/-! ## The two ends of a range, year by year -/

namespace DateRange

variable {range : DateRange} {seen : YearMonth} {month : Nat} {k year i j : Int} {d a b : Date}
  {spans own : List DaySpan} {s : DaySpan}

/-- A range whose ends name no years and are shifted by 31 days at most. -/
def IsYearly (range : DateRange) : Prop :=
  range.start.IsYearly ∧ ∀ stop, range.stop? = some stop → stop.IsYearly

/-- The start of a range, looked up in a year. -/
def firstIn (range : DateRange) (year : Int) (month : Nat) : Except DateFault Date :=
  range.start.dateIn .first year month

/-- The end of a range, looked up in a year. A range of one point ends with it. -/
def lastIn (range : DateRange) (year : Int) (month : Nat) : Except DateFault Date :=
  match range.stop? with
  | some stop => stop.dateIn .last year (range.start.monthOr month)
  | none => range.start.dateIn (if range.start.isWholeMonth then .last else .first) year month

/-- The end is that of some point. -/
theorem lastIn_eq_dateIn (range : DateRange) (month : Nat) : ∃ p place month',
    (∀ year, range.lastIn year month = DatePoint.dateIn p place year month') ∧
      (range.IsYearly → p.IsYearly) := by
  unfold lastIn
  cases hstop : range.stop? with
  | some stop => exact ⟨stop, .last, _, fun _ => rfl, fun h => h.2 stop hstop⟩
  | none => exact ⟨range.start, _, month, fun _ => rfl, fun h => h.1⟩

/-- Starts come later from year to year. -/
theorem firstIn_mono (h : i ≤ j) (ha : range.firstIn i month = .ok a)
    (hb : range.firstIn j month = .ok b) : a ≤ b := by
  rcases Int.lt_or_eq_of_le h with hlt | rfl
  · exact DatePoint.le_of_dateIn (.inl ⟨rfl, rfl⟩) hlt ha hb
  · exact Int.le_of_eq (congrArg Date.number (Except.ok.inj (ha.symm.trans hb)))

/-- Ends come later from year to year. -/
theorem lastIn_mono (h : i ≤ j) (ha : range.lastIn i month = .ok a)
    (hb : range.lastIn j month = .ok b) : a ≤ b := by
  obtain ⟨p, place, month', hlast, _⟩ := range.lastIn_eq_dateIn month
  rw [hlast] at ha hb
  rcases Int.lt_or_eq_of_le h with hlt | rfl
  · exact DatePoint.le_of_dateIn (.inl ⟨rfl, rfl⟩) hlt ha hb
  · exact Int.le_of_eq (congrArg Date.number (Except.ok.inj (ha.symm.trans hb)))

/-- The start of a range does not come after its end in a year. -/
def InOrder (range : DateRange) (year : Int) (month : Nat) : Prop :=
  ∃ first last, range.firstIn year month = .ok first ∧ range.lastIn year month = .ok last ∧
    first ≤ last

/-- An end of a range, looked up in a year next to this one, comes to lie in this one. -/
def StraysInto (range : DateRange) (year : Int) (month : Nat) : Prop :=
  ∃ other d, (other = year - 1 ∨ other = year + 1) ∧
    (range.firstIn other month = .ok d ∨ range.lastIn other month = .ok d) ∧ d.year = year

/-- A range of one point comes to the span from its start to its end. -/
theorem spans_of_no_stop_iff (hyearly : range.IsYearly) (hstop : range.stop? = none) :
    range.spans seen = .ok spans ↔ range.openEnded = false ∧ ∃ first last,
      range.firstIn seen.year seen.month = .ok first ∧
        range.lastIn seen.year seen.month = .ok last ∧ spans = [⟨first, last⟩] := by
  have hyear := hyearly.1.namedYear?
  unfold DateRange.spans lastIn firstIn
  rw [hstop]
  dsimp only
  cases range.openEnded with
  | true =>
      unfold spanOnward
      rw [hyear]
      exact ⟨fun h => (by cases h), fun h => (by cases h.1)⟩
  | false =>
      rw [if_neg Bool.false_ne_true, bind_eq_ok_iff]
      refine ⟨?_, ?_⟩
      · rintro ⟨span, hspan, h⟩
        cases h
        obtain ⟨hfirst, hlast⟩ := spanAlone_eq_ok_iff.1 hspan
        rw [hyear] at hfirst hlast
        exact ⟨rfl, span.start, span.stop, hfirst, hlast, rfl⟩
      · rintro ⟨_, first, last, hfirst, hlast, rfl⟩
        refine ⟨⟨first, last⟩, spanAlone_eq_ok_iff.2 ?_, rfl⟩
        rw [hyear]
        exact ⟨hfirst, hlast⟩

/-- What the spans of a range are: one with the two ends of the year, or two with one of them each. -/
theorem spans_cases (hyearly : range.IsYearly) (h : range.spans seen = .ok spans) :
    ∃ first last, range.firstIn seen.year seen.month = .ok first ∧
      range.lastIn seen.year seen.month = .ok last ∧
      (first ≤ last ∧ spans = [⟨first, last⟩] ∨
        ¬first ≤ last ∧ ∃ before after, range.firstIn (seen.year - 1) seen.month = .ok before ∧
          range.lastIn (seen.year + 1) seen.month = .ok after ∧
          spans = [⟨first, after⟩, ⟨before, last⟩]) := by
  cases hstop : range.stop? with
  | none =>
      obtain ⟨_, first, last, hfirst, hlast, rfl⟩ := (spans_of_no_stop_iff hyearly hstop).1 h
      obtain ⟨span, hspan, hle⟩ := spans_of_no_stop hstop h
      cases hspan
      exact ⟨first, last, hfirst, hlast, .inl ⟨hle, rfl⟩⟩
  | some stop =>
      unfold DateRange.spans at h
      unfold lastIn firstIn
      rw [hstop] at h ⊢
      dsimp only at h ⊢
      rcases spansBetween_cases h with ⟨span, rfl, hle, hspan⟩ |
        ⟨_, span, current, previous, rfl, hspan, hgt, hcurrent, hprevious⟩
      · obtain ⟨hfirst, hlast⟩ := spanIn_eq_ok_iff.1 (hspan hyearly.1.namedYear?)
        exact ⟨span.start, span.stop, hfirst, hlast, .inl ⟨hle, rfl⟩⟩
      · obtain ⟨hfirst, hlast⟩ := spanIn_eq_ok_iff.1 hspan
        obtain ⟨hfirst', hafter⟩ := spanIn_eq_ok_iff.1 hcurrent
        obtain ⟨hbefore, hlast'⟩ := spanIn_eq_ok_iff.1 hprevious
        have hsame : span.start = current.start := Except.ok.inj (hfirst.symm.trans hfirst')
        have hsame' : span.stop = previous.stop := Except.ok.inj (hlast.symm.trans hlast')
        refine ⟨span.start, span.stop, hfirst, hlast, .inr ⟨hgt, previous.start, current.stop,
          hbefore, hafter, ?_⟩⟩
        rw [hsame, hsame']

/-- Seen from a year away from the edges of the calendar, a range comes to spans if it ever does. -/
theorem exists_spans (hyearly : range.IsYearly) (h : range.spans ⟨k, month⟩ = .ok spans)
    (hyear : minYear < year - 1 ∧ year + 1 < maxYear) :
    ∃ own, range.spans ⟨year, month⟩ = .ok own := by
  obtain ⟨a, b, ha, hb, _⟩ := spans_cases hyearly h
  obtain ⟨p, place, month', hlastIn, hp⟩ := range.lastIn_eq_dateIn month
  have hfirsts : ∀ j, minYear < j ∧ j < maxYear → ∃ e, range.firstIn j month = .ok e :=
    fun j hj => hyearly.1.exists_dateIn ha hj
  have hlasts : ∀ j, minYear < j ∧ j < maxYear → ∃ e, range.lastIn j month = .ok e := by
    intro j hj
    rw [hlastIn] at hb
    obtain ⟨e, he⟩ := (hp hyearly).exists_dateIn hb hj
    exact ⟨e, (hlastIn j).trans he⟩
  obtain ⟨first, hfirst⟩ := hfirsts year (by omega)
  obtain ⟨last, hlast⟩ := hlasts year (by omega)
  cases hstop : range.stop? with
  | none =>
      obtain ⟨hopen, _⟩ := (spans_of_no_stop_iff hyearly hstop).1 h
      exact ⟨_, (spans_of_no_stop_iff hyearly hstop).2 ⟨hopen, first, last, hfirst, hlast, rfl⟩⟩
  | some stop =>
      obtain ⟨before, hbefore⟩ := hfirsts (year - 1) (by omega)
      obtain ⟨after, hafter⟩ := hlasts (year + 1) (by omega)
      have hstart := hyearly.1.namedYear?
      have hnamed := (hyearly.2 stop hstop).namedYear?
      unfold lastIn at hlast hafter
      rw [hstop] at hlast hafter
      have hspan : spanIn range.start stop month year year = .ok ⟨first, last⟩ :=
        spanIn_eq_ok_iff.2 ⟨hfirst, hlast⟩
      by_cases hle : first ≤ last
      · exact ⟨_, spans_of_le hstop hstart hnamed hspan hle⟩
      · have hcurrent : spanIn range.start stop month year (year + 1) = .ok ⟨first, after⟩ :=
          spanIn_eq_ok_iff.2 ⟨hfirst, hafter⟩
        have hprevious : spanIn range.start stop month (year - 1) year = .ok ⟨before, last⟩ :=
          spanIn_eq_ok_iff.2 ⟨hbefore, hlast⟩
        exact ⟨_, spans_of_not_le hstop hstart hnamed hspan hle hcurrent hprevious⟩

/-- A span has its ends from one year or from two years in turn. -/
theorem exists_ends_of_mem (hyearly : range.IsYearly) (h : range.spans ⟨k, month⟩ = .ok spans)
    (hs : s ∈ spans) : ∃ i j, range.firstIn i month = .ok s.start ∧
      range.lastIn j month = .ok s.stop ∧ i ≤ j ∧ j ≤ i + 1 ∧
      (range.InOrder k month → i = k ∧ j = k) := by
  obtain ⟨first, last, hfirst, hlast, ⟨_, rfl⟩ | ⟨hgt, before, after, hbefore, hafter, rfl⟩⟩ :=
    spans_cases hyearly h
  · obtain rfl := List.mem_singleton.1 hs
    exact ⟨k, k, hfirst, hlast, by omega, by omega, fun _ => ⟨rfl, rfl⟩⟩
  · have hnot : ¬range.InOrder k month := by
      rintro ⟨first', last', hfirst', hlast', hle⟩
      cases hfirst.symm.trans hfirst'
      cases hlast.symm.trans hlast'
      exact hgt hle
    rcases List.mem_pair.1 hs with rfl | rfl
    · exact ⟨k, k + 1, hfirst, hafter, by omega, by omega, fun horder => absurd horder hnot⟩
    · exact ⟨k - 1, k, hbefore, hlast, by omega, by omega, fun horder => absurd horder hnot⟩

/-- No span of another year lies between the two that are seen from a year. -/
theorem contains_of_between (hyearly : range.IsYearly) (h : range.spans ⟨k, month⟩ = .ok spans)
    (hs : s ∈ spans) (hd : s.contains d = true) (hown : range.spans ⟨year, month⟩ = .ok own)
    (hafter : ∃ t ∈ own, t.start ≤ d) (hbefore : ∃ t ∈ own, d ≤ t.stop) :
    ∃ t ∈ own, t.contains d = true := by
  obtain ⟨i, j, hstart, hstop, _, hnext, _⟩ := exists_ends_of_mem hyearly h hs
  rw [DaySpan.contains_iff, Date.le_iff, Date.le_iff] at hd
  obtain ⟨first, last, hfirst, hlast, ⟨_, rfl⟩ | ⟨_, before, after, hbeforeIn, hafterIn, rfl⟩⟩ :=
    spans_cases hyearly hown
  · simp only [List.mem_singleton, exists_eq_left] at hafter hbefore ⊢
    exact DaySpan.contains_iff.2 ⟨hafter, hbefore⟩
  · simp only [List.mem_cons, List.not_mem_nil, or_false, exists_eq_or_imp, exists_eq_left,
      DaySpan.contains_iff, Date.le_iff] at hafter hbefore ⊢
    have hfirsts := firstIn_mono (show year - 1 ≤ year by omega) hbeforeIn hfirst
    have hlasts := lastIn_mono (show year ≤ year + 1 by omega) hlast hafterIn
    rw [Date.le_iff] at hfirsts hlasts
    -- a span that starts before the year stops in it at the latest
    by_cases hin : year ≤ i
    · have hlow := firstIn_mono hin hfirst hstart
      rw [Date.le_iff] at hlow
      omega
    · have hhigh := lastIn_mono (show j ≤ year by omega) hstop hlast
      rw [Date.le_iff] at hhigh
      omega

/-- A span with a day of a year in it has its ends from this year, unless one strays into it. -/
theorem ends_of_not_straysInto (hyearly : range.IsYearly)
    (hstart : range.firstIn i month = .ok a) (hstop : range.lastIn j month = .ok b)
    (hd : a ≤ d ∧ d ≤ b) (hstays : ¬range.StraysInto d.year month) :
    i ≤ d.year ∧ d.year ≤ j := by
  obtain ⟨p, place, month', hlastIn, hp⟩ := range.lastIn_eq_dateIn month
  have hfirst := hyearly.1.year_of_dateIn hstart
  have hlast := (hp hyearly).year_of_dateIn ((hlastIn j).symm.trans hstop)
  have hlow := Date.year_le_of_le hd.1
  have hhigh := Date.year_le_of_le hd.2
  refine ⟨Int.not_lt.1 fun hlt => hstays ?_, Int.not_lt.1 fun hlt => hstays ?_⟩
  · exact ⟨i, a, .inr (by omega), .inl hstart, by omega⟩
  · exact ⟨j, b, .inl (by omega), .inr hstop, by omega⟩

/--
**When a day is found from its own year.**

The ends of a range name no years and are shifted by 31 days at most. Let a day be in one of the
spans that are seen from some year. Seen from its own year the range comes to spans too, unless
that is one of the first two years of the calendar or of the last two; and the day is in one of
these exactly when it is neither before all of them nor after all of them. So it is found whenever
no end that is looked up in a year next to its own strays into its own, and the range, if it is in
order in its own year, is in order in the other year too.
-/
theorem contains_from_own_year (hyearly : range.IsYearly)
    (hspans : range.spans ⟨k, d.month⟩ = .ok spans) (hd : ∃ s ∈ spans, s.contains d = true) :
    (minYear < d.year - 1 ∧ d.year + 1 < maxYear → ∃ own, range.spans d.yearMonth = .ok own) ∧
    ∀ own, range.spans d.yearMonth = .ok own →
      ((∃ s ∈ own, s.contains d = true) ↔ (∃ s ∈ own, s.start ≤ d) ∧ ∃ s ∈ own, d ≤ s.stop) ∧
      (¬range.StraysInto d.year d.month →
        (range.InOrder d.year d.month → range.InOrder k d.month) →
          ∃ s ∈ own, s.contains d = true) := by
  obtain ⟨s, hs, hd⟩ := hd
  refine ⟨exists_spans hyearly hspans, fun own hown => ?_⟩
  have hbetween := contains_of_between hyearly hspans hs hd hown
  refine ⟨⟨?_, fun h => hbetween h.1 h.2⟩, fun hstays horder => ?_⟩
  · rintro ⟨t, ht, hcontains⟩
    obtain ⟨hlow, hhigh⟩ := DaySpan.contains_iff.1 hcontains
    exact ⟨⟨t, ht, hlow⟩, ⟨t, ht, hhigh⟩⟩
  · obtain ⟨i, j, hstart, hstop, hle, hnext, hsame⟩ := exists_ends_of_mem hyearly hspans hs
    rw [DaySpan.contains_iff] at hd
    obtain ⟨hi, hj⟩ := ends_of_not_straysInto hyearly hstart hstop hd hstays
    obtain ⟨first, last, hfirst, hlast, ⟨hin, rfl⟩ | ⟨_, before, after, hbefore, hafter, rfl⟩⟩ :=
      spans_cases hyearly hown
    · -- in order in both years, the two years are one
      obtain ⟨hik, hjk⟩ := hsame (horder ⟨first, last, hfirst, hlast, hin⟩)
      have hyear : k = d.year := by omega
      rw [hik, hyear] at hstart
      rw [hjk, hyear] at hstop
      cases hfirst.symm.trans hstart
      cases hlast.symm.trans hstop
      exact ⟨_, List.mem_singleton_self _, DaySpan.contains_iff.2 hd⟩
    · have hlow := firstIn_mono (show d.year - 1 ≤ i by omega) hbefore hstart
      have hhigh := lastIn_mono (show j ≤ d.year + 1 by omega) hstop hafter
      exact hbetween ⟨⟨before, last⟩, by simp, Int.le_trans hlow hd.1⟩
        ⟨⟨first, after⟩, by simp, Int.le_trans hd.2 hhigh⟩

/-- From the Sunday after 24 December to 6 January. -/
def yuletide : DateRange :=
  .between ((DatePoint.ofMonthDay 12 24).shiftedTo .sun .next) (.ofMonthDay 1 6)

/-- On 3 January 2022 yuletide is on, seen from 2021, and so it is seen from 2022. -/
theorem contains_from_own_year_yuletide :
    ∃ own, yuletide.spans ⟨2022, 1⟩ = .ok own ∧
      ∃ s ∈ own, s.contains ⟨738523, by decide, by decide⟩ = true := by
  have hyearly : yuletide.IsYearly := by
    refine ⟨⟨rfl, by decide⟩, fun stop hstop => ?_⟩
    cases hstop
    exact ⟨rfl, by decide⟩
  have hspans : yuletide.spans ⟨2021, 1⟩ =
      .ok [⟨⟨738515, by decide, by decide⟩, ⟨738526, by decide, by decide⟩⟩,
        ⟨⟨738151, by decide, by decide⟩, ⟨738161, by decide, by decide⟩⟩] := by decide +kernel
  obtain ⟨hexists, hown⟩ := contains_from_own_year (d := ⟨738523, by decide, by decide⟩) hyearly
    hspans ⟨_, List.mem_cons_self, by decide⟩
  obtain ⟨own, hspans'⟩ := hexists (by decide)
  refine ⟨own, hspans', (hown own hspans').2 ?_ ?_⟩
  · rintro ⟨other, e, hother, hend, hyear⟩
    -- both ends stay in 2021 and in 2023
    have hstart : yuletide.firstIn 2021 1 = .ok ⟨738515, by decide, by decide⟩ := by decide +kernel
    have hstart' : yuletide.firstIn 2023 1 = .ok ⟨739250, by decide, by decide⟩ := by decide +kernel
    have hstop : yuletide.lastIn 2021 1 = .ok ⟨738161, by decide, by decide⟩ := by decide +kernel
    have hstop' : yuletide.lastIn 2023 1 = .ok ⟨738891, by decide, by decide⟩ := by decide +kernel
    rcases hother with rfl | rfl
    · rcases hend with hend | hend
      · cases hend.symm.trans hstart
        exact absurd hyear (by decide)
      · cases hend.symm.trans hstop
        exact absurd hyear (by decide)
    · rcases hend with hend | hend
      · cases hend.symm.trans hstart'
        exact absurd hyear (by decide)
      · cases hend.symm.trans hstop'
        exact absurd hyear (by decide)
  · rintro ⟨first, last, hfirst, hlast, hle⟩
    have hstart : yuletide.firstIn 2022 1 = .ok ⟨738879, by decide, by decide⟩ := by decide +kernel
    have hstop : yuletide.lastIn 2022 1 = .ok ⟨738526, by decide, by decide⟩ := by decide +kernel
    cases hfirst.symm.trans hstart
    cases hlast.symm.trans hstop
    exact absurd hle (by decide)

/-- From 10 April to Easter, which comes before 10 April in 2021 and after it in 2022. -/
def toEaster : DateRange := .between (.ofMonthDay 4 10) .easter

/-- Without any shift 1 January 2022 is missed from its own year, which has the range in order. -/
example : (toEaster.spans ⟨2021, 1⟩).map (·.any (·.contains ⟨738521, by decide, by decide⟩)) = .ok true ∧
    (toEaster.spans ⟨2022, 1⟩).map (·.any (·.contains ⟨738521, by decide, by decide⟩)) = .ok false := by
  decide +kernel

/-- The Sunday after 31 December. -/
def newYearsSunday : DateRange := .single ((DatePoint.ofMonthDay 12 31).shiftedTo .sun .next)

/--
Seen from 2020 it is 3 January 2021. But it is never found from the year it lies in, since from
there it is the Sunday after this year.
-/
theorem newYearsSunday_never_found :
    (newYearsSunday.IsYearly ∧ newYearsSunday.start.month? = some 12) ∧
    (∃ spans, newYearsSunday.spans ⟨2020, 1⟩ = .ok spans ∧
      ∃ s ∈ spans, s.contains ⟨738158, by decide, by decide⟩ = true) ∧
    ∀ d own, newYearsSunday.spans d.yearMonth = .ok own → ¬∃ s ∈ own, s.contains d = true := by
  have hyearly : newYearsSunday.IsYearly := ⟨⟨rfl, by decide⟩, fun stop hstop => by cases hstop⟩
  refine ⟨⟨hyearly, rfl⟩,
    ⟨[⟨⟨738158, by decide, by decide⟩, ⟨738158, by decide, by decide⟩⟩], by decide +kernel,
      _, List.mem_cons_self, by decide⟩, ?_⟩
  rintro d own hown ⟨s, hs, hd⟩
  obtain ⟨_, first, last, hfirst, _, rfl⟩ := (spans_of_no_stop_iff hyearly rfl).1 hown
  obtain rfl := List.mem_singleton.1 hs
  obtain ⟨hle, _⟩ := DaySpan.contains_iff.1 hd
  obtain ⟨eve, heve, hshift⟩ := DatePoint.dateIn_eq_ok_iff.1 hfirst
  obtain ⟨length, hlength, heve⟩ := (DatePoint.unshiftedIn_eq_ok_iff_of_no_feast rfl).1 heve
  obtain ⟨_, rfl⟩ := monthLength?_eq_some_iff.1 hlength
  obtain ⟨_, hnumber⟩ := Date.ofYmd?_eq_some_iff.1 heve
  -- the range starts on the day after New Year's Eve at the earliest
  have hnumber : eve.number = Civil.numberOf d.year 12 31 := hnumber
  have hafter : eve.number + 1 ≤ first.number := (DatePoint.shift?_bounds hshift).1
  have hend : Civil.numberOf d.year 12 1 + (31 : Nat) = Civil.daysBeforeYear (d.year + 1) :=
    YearMonth.start_add_length_of_december (m := ⟨d.year, 12⟩) rfl
  have hyear := d.year_bounds.2
  rw [Date.le_iff] at hle
  dsimp only at hle
  unfold Civil.numberOf at hnumber hend
  omega

end DateRange

end OpeningHours
