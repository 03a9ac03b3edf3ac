import OpeningHours.Proofs.DatePoint
import Mathlib.Control.Monad.Basic

/-!
# When the spans of a range run backwards

A range whose start comes after its end is put right by the years it leaves open: its end is moved
into the next year. The points may be shifted, by more days than there are between them, so that
the start comes after the end even then. With a year named for the start this is found out and
refused. Without one the range is taken to run over the turn of the year, its two spans are not
looked at again, and either may run backwards.

In every other case the ends were compared, or they come from one point. A point seen as the end
of its month is later than seen as the start, and a shift keeps that order.
-/

namespace OpeningHours

theorem le_openRangeEnd {d e : Date} (h : openRangeEnd d = .ok e) : d ≤ e := by
  obtain ⟨length, hlength, hdate⟩ := Option.bind_eq_some_iff.1 (orFault_eq_ok_iff.1 h)
  have hlast := Date.yearMonth_of_ofYmd? hdate
  unfold openRangeMonth at hlength hdate hlast
  by_cases hsix : d.yearMonth.month ≤ 6
  · -- the range runs out with the year
    rw [if_pos hsix] at hlength hdate
    obtain ⟨_, hnumber⟩ := Date.ofYmd?_eq_some_iff.1 hdate
    obtain ⟨_, hmonth⟩ := monthLength?_eq_some_iff.1 hlength
    have hend := YearMonth.start_add_length_of_december (m := ⟨d.yearMonth.year, 12⟩) rfl
    have hbounds := d.year_bounds
    simp only [YearMonth.start, YearMonth.length, Civil.numberOf, hmonth] at hend hnumber
    rw [Date.le_iff]
    have hyear : d.yearMonth.year = d.year := rfl
    rw [hyear] at hend hnumber
    omega
  · rw [if_neg hsix] at hlast
    have hyear : e.year = d.year + 1 := by
      split at hlast
      · exact congrArg YearMonth.year hlast
      · exact congrArg YearMonth.year hlast
    exact Date.le_iff.2 (Int.le_of_lt (Date.lt_of_year_lt (by omega)))

namespace DateRange

variable {range : DateRange} {start stop point : DatePoint} {seen : YearMonth} {month : Nat}
  {startYear stopYear year : Int} {span : DaySpan} {spans : List DaySpan}

theorem spanIn_eq_ok_iff :
    spanIn start stop month startYear stopYear = .ok span ↔
      start.dateIn .first startYear month = .ok span.start ∧
        stop.dateIn .last stopYear (start.monthOr month) = .ok span.stop := by
  unfold spanIn
  rw [bind_eq_ok_iff]
  refine ⟨?_, ?_⟩
  · rintro ⟨first, hfirst, h⟩
    obtain ⟨last, hlast, h⟩ := bind_eq_ok_iff.1 h
    cases h
    exact ⟨hfirst, hlast⟩
  · rintro ⟨hfirst, hlast⟩
    exact ⟨span.start, hfirst, bind_eq_ok_iff.2 ⟨span.stop, hlast, rfl⟩⟩

/-! ## The spans of one point -/

theorem spanAlone_eq_ok_iff :
    spanAlone point seen = .ok span ↔
      point.dateIn .first (point.namedYear?.getD seen.year) seen.month = .ok span.start ∧
        point.dateIn (if point.isWholeMonth then .last else .first)
          (point.namedYear?.getD seen.year) seen.month = .ok span.stop := by
  unfold spanAlone
  dsimp only
  rw [bind_eq_ok_iff]
  cases point.isWholeMonth with
  | true =>
      refine ⟨?_, ?_⟩
      · rintro ⟨first, hfirst, h⟩
        obtain ⟨last, hlast, h⟩ := bind_eq_ok_iff.1 h
        cases h
        exact ⟨hfirst, hlast⟩
      · rintro ⟨hfirst, hlast⟩
        exact ⟨span.start, hfirst, bind_eq_ok_iff.2 ⟨span.stop, hlast, rfl⟩⟩
  | false =>
      refine ⟨?_, ?_⟩
      · rintro ⟨first, hfirst, h⟩
        cases h
        exact ⟨hfirst, hfirst⟩
      · rintro ⟨hfirst, hlast⟩
        obtain ⟨start, stop⟩ := span
        obtain rfl : start = stop := Except.ok.inj (hfirst.symm.trans hlast)
        exact ⟨start, hfirst, rfl⟩

theorem start_le_stop_of_spanOnward (h : spanOnward start seen = .ok span) :
    span.start ≤ span.stop := by
  unfold spanOnward at h
  cases hyear : start.namedYear? with
  | none =>
      rw [hyear] at h
      cases h
  | some year =>
      rw [hyear] at h
      obtain ⟨first, _, h⟩ := bind_eq_ok_iff.1 h
      obtain ⟨last, hlast, h⟩ := bind_eq_ok_iff.1 h
      cases h
      exact le_openRangeEnd hlast

/-- A point that names a month only is later at the end of it than at the start. -/
theorem le_of_isWholeMonth {p : DatePoint} (hwhole : p.isWholeMonth = true) {first last : Date}
    (hfirst : p.dateIn .first year month = .ok first)
    (hlast : p.dateIn .last year month = .ok last) : first ≤ last := by
  unfold DatePoint.isWholeMonth at hwhole
  rw [Bool.and_eq_true, Option.isNone_iff_eq_none, Option.isNone_iff_eq_none] at hwhole
  obtain ⟨hday, hfeast⟩ := hwhole
  obtain ⟨d, hd, hshift⟩ := DatePoint.dateIn_eq_ok_iff.1 hfirst
  obtain ⟨e, he, hshift'⟩ := DatePoint.dateIn_eq_ok_iff.1 hlast
  obtain ⟨_, _, hd⟩ := (DatePoint.unshiftedIn_eq_ok_iff_of_no_feast hfeast).1 hd
  obtain ⟨length, hlength, he⟩ := (DatePoint.unshiftedIn_eq_ok_iff_of_no_feast hfeast).1 he
  obtain ⟨_, hlong⟩ := monthLength?_eq_some_iff.1 hlength
  have hmany := Civil.le_monthLength (Civil.isLeap year) (p.monthOr month)
  obtain ⟨_, hnumber⟩ := Date.ofYmd?_eq_some_iff.1 hd
  obtain ⟨_, hnumber'⟩ := Date.ofYmd?_eq_some_iff.1 he
  unfold Civil.numberOf DatePoint.dayIn at hnumber hnumber'
  rw [hday] at hnumber hnumber'
  refine DatePoint.le_of_shift? (.inl ⟨rfl, rfl⟩) (Date.lt_iff.2 ?_) hshift hshift'
  dsimp only at hnumber hnumber'
  omega

theorem start_le_stop_of_spanAlone (h : spanAlone point seen = .ok span) :
    span.start ≤ span.stop := by
  obtain ⟨hfirst, hlast⟩ := spanAlone_eq_ok_iff.1 h
  cases hwhole : point.isWholeMonth with
  | true =>
      rw [hwhole] at hlast
      exact le_of_isWholeMonth hwhole hfirst hlast
  | false =>
      rw [hwhole] at hlast
      exact Int.le_of_eq (congrArg Date.number (Except.ok.inj (hfirst.symm.trans hlast)))

/-- A range without an end comes to one span in order. -/
theorem spans_of_no_stop (hstop : range.stop? = none) (h : range.spans seen = .ok spans) :
    ∃ span, spans = [span] ∧ span.start ≤ span.stop := by
  unfold DateRange.spans at h
  rw [hstop] at h
  dsimp only at h
  split at h
  · obtain ⟨span, hspan, h⟩ := bind_eq_ok_iff.1 h
    cases h
    exact ⟨span, rfl, start_le_stop_of_spanOnward hspan⟩
  · obtain ⟨span, hspan, h⟩ := bind_eq_ok_iff.1 h
    cases h
    exact ⟨span, rfl, start_le_stop_of_spanAlone hspan⟩

/-! ## The spans between two points -/

/--
The start comes after the end although the end is a year later. Neither names a year, so that the
range is taken to run over the turn of the year.
-/
def Overtakes (range : DateRange) (year : Int) (month : Nat) : Prop :=
  ∃ stop span, range.stop? = some stop ∧ range.start.namedYear? = none ∧ stop.namedYear? = none ∧
    spanIn range.start stop month year (year + 1) = .ok span ∧ ¬span.start ≤ span.stop

/-- What the spans between two points are: one with its ends in order, or two for the turn of a year. -/
theorem spansBetween_cases (h : spansBetween start stop seen = .ok spans) :
    (∃ span, spans = [span] ∧ span.start ≤ span.stop ∧ (start.namedYear? = none →
      spanIn start stop seen.month seen.year seen.year = .ok span)) ∨
    (start.namedYear? = none ∧ stop.namedYear? = none) ∧ ∃ span current previous,
      spans = [current, previous] ∧
      spanIn start stop seen.month seen.year seen.year = .ok span ∧ ¬span.start ≤ span.stop ∧
      spanIn start stop seen.month seen.year (seen.year + 1) = .ok current ∧
      spanIn start stop seen.month (seen.year - 1) seen.year = .ok previous := by
  unfold spansBetween at h
  cases hstart : start.namedYear? with
  | none =>
      rw [hstart] at h
      cases hstop : stop.namedYear? with
      | some _ =>
          rw [hstop] at h
          cases h
      | none =>
          rw [hstop] at h
          obtain ⟨span, hspan, h⟩ := bind_eq_ok_iff.1 h
          split at h
          · rename_i hle
            cases h
            exact .inl ⟨span, rfl, hle, fun _ => hspan⟩
          · rename_i hgt
            obtain ⟨current, hcurrent, h⟩ := bind_eq_ok_iff.1 h
            obtain ⟨previous, hprevious, h⟩ := bind_eq_ok_iff.1 h
            cases h
            exact .inr ⟨⟨rfl, rfl⟩, span, current, previous, rfl, hspan, hgt, hcurrent, hprevious⟩
  | some year =>
      rw [hstart] at h
      cases hstop : stop.namedYear? with
      | none =>
          rw [hstop] at h
          obtain ⟨span, _, h⟩ := bind_eq_ok_iff.1 h
          split at h
          · rename_i hle
            cases h
            exact .inl ⟨span, rfl, hle, fun hnone => by cases hnone⟩
          · obtain ⟨last, _, h⟩ := bind_eq_ok_iff.1 h
            split at h
            · rename_i hle
              cases h
              exact .inl ⟨_, rfl, hle, fun hnone => by cases hnone⟩
            · cases h
      | some stopYear =>
          rw [hstop] at h
          obtain ⟨span, _, h⟩ := bind_eq_ok_iff.1 h
          split at h
          · rename_i hle
            cases h
            exact .inl ⟨span, rfl, hle, fun hnone => by cases hnone⟩
          · cases h

/-- Whether the start overtakes the end can be told from the span of the two years. -/
theorem overtakes_iff (hstop : range.stop? = some stop) (hnone : range.start.namedYear? = none)
    (hnone' : stop.namedYear? = none)
    (hspan : spanIn range.start stop month year (year + 1) = .ok span) :
    range.Overtakes year month ↔ ¬span.start ≤ span.stop := by
  refine ⟨?_, fun hgt => ⟨stop, span, hstop, hnone, hnone', hspan, hgt⟩⟩
  rintro ⟨stop', span', hstop', _, _, hspan', hgt⟩
  cases hstop.symm.trans hstop'
  cases hspan.symm.trans hspan'
  exact hgt

/-- A range that is in order within a year stays so when its start or its end is put a year apart. -/
theorem not_overtakes_of_le (hstop : range.stop? = some stop)
    (hspan : spanIn range.start stop month year year = .ok span) (hle : span.start ≤ span.stop) :
    ¬range.Overtakes year month ∧ ¬range.Overtakes (year - 1) month := by
  obtain ⟨hfirst, hlast⟩ := spanIn_eq_ok_iff.1 hspan
  rw [Date.le_iff] at hle
  refine ⟨?_, ?_⟩
  · rintro ⟨stop', later, hstop', _, _, hlater, hgt⟩
    cases hstop.symm.trans hstop'
    obtain ⟨hfirst', hlast'⟩ := spanIn_eq_ok_iff.1 hlater
    have hsame : span.start = later.start := Except.ok.inj (hfirst.symm.trans hfirst')
    have hmore := DatePoint.le_of_dateIn (.inl ⟨rfl, rfl⟩) (by omega) hlast hlast'
    rw [Date.le_iff] at hgt hmore
    rw [hsame] at hle
    omega
  · rintro ⟨stop', earlier, hstop', _, _, hearlier, hgt⟩
    cases hstop.symm.trans hstop'
    obtain ⟨hfirst', hlast'⟩ := spanIn_eq_ok_iff.1 hearlier
    rw [Int.sub_add_cancel] at hlast'
    have hsame : span.stop = earlier.stop := Except.ok.inj (hlast.symm.trans hlast')
    have hless := DatePoint.le_of_dateIn (.inl ⟨rfl, rfl⟩) (by omega) hfirst' hfirst
    rw [Date.le_iff] at hgt hless
    rw [hsame] at hle
    omega

/-- A start that is shifted no farther than the end stays before the end of the next year. -/
theorem not_overtakes_of_shiftsWithin (hstop : range.stop? = some stop)
    (hshift : range.start.ShiftsWithin stop) (year : Int) (month : Nat) :
    ¬range.Overtakes year month := by
  rintro ⟨stop', span, hstop', _, _, hspan, hgt⟩
  cases hstop.symm.trans hstop'
  obtain ⟨hfirst, hlast⟩ := spanIn_eq_ok_iff.1 hspan
  exact hgt (DatePoint.le_of_dateIn hshift (by omega) hfirst hlast)

/-- A start with a year that stays after the end is refused. -/
theorem spansBetween_of_namedYear {last : Date} (hyear : start.namedYear? = some year)
    (hspan : spanIn start stop seen.month year (stop.namedYear?.getD year) = .ok span)
    (hlast : stop.dateIn .last (stop.namedYear?.getD (year + 1)) (start.monthOr seen.month) = .ok last)
    (hgt : ¬span.start ≤ last) :
    spansBetween start stop seen = .error (.startAfterEnd span.start last) := by
  obtain ⟨_, hstop⟩ := spanIn_eq_ok_iff.1 hspan
  unfold spansBetween
  rw [hyear]
  cases hnamed : stop.namedYear? with
  | none =>
      rw [hnamed] at hspan hlast hstop
      have hmore := DatePoint.le_of_dateIn (.inl ⟨rfl, rfl⟩) (Int.lt_succ year) hstop hlast
      have hfirst : ¬span.start ≤ span.stop := by
        rw [Date.le_iff] at hgt hmore ⊢
        omega
      simp only [Option.getD_none] at hspan hlast
      simp only [hspan, hlast, bind, Except.bind, if_neg hfirst, if_neg hgt]
  | some stopYear =>
      rw [hnamed] at hspan hlast hstop
      obtain rfl : span.stop = last := Except.ok.inj (hstop.symm.trans hlast)
      simp only [Option.getD_some] at hspan
      simp only [hspan, bind, Except.bind, if_neg hgt]

/--
**When the spans of a range are in order.**

A range of dates comes to an error or to one or two spans. They all start before they stop, or on
the same day, exactly when the start does not overtake the end: that of the year after, or, for the
year before, that of the year. A start that is shifted no farther than the end never does. A start
that has a year and stays after the end, in the next year too if the end has none, is an error.
-/
theorem spans_in_order_iff (range : DateRange) (seen : YearMonth) :
    (∀ spans, range.spans seen = .ok spans → (spans.length = 1 ∨ spans.length = 2) ∧
      ((∀ s ∈ spans, s.start ≤ s.stop) ↔
        ¬range.Overtakes seen.year seen.month ∧ ¬range.Overtakes (seen.year - 1) seen.month)) ∧
    ∀ stop, range.stop? = some stop →
      (range.start.ShiftsWithin stop → ∀ year month, ¬range.Overtakes year month) ∧
      ∀ year span last, range.start.namedYear? = some year →
        spanIn range.start stop seen.month year (stop.namedYear?.getD year) = .ok span →
        stop.dateIn .last (stop.namedYear?.getD (year + 1)) (range.start.monthOr seen.month) = .ok last →
        ¬span.start ≤ last → range.spans seen = .error (.startAfterEnd span.start last) := by
  refine ⟨fun spans h => ?_, fun stop hstop => ⟨not_overtakes_of_shiftsWithin hstop, ?_⟩⟩
  · cases hstop : range.stop? with
    | none =>
        obtain ⟨span, rfl, hle⟩ := spans_of_no_stop hstop h
        have hnot : ∀ year, ¬range.Overtakes year seen.month := by
          rintro year ⟨stop, _, hstop', _⟩
          cases hstop.symm.trans hstop'
        exact ⟨.inl rfl, fun _ => ⟨hnot _, hnot _⟩, fun _ s hs => List.mem_singleton.1 hs ▸ hle⟩
    | some stop =>
        unfold DateRange.spans at h
        rw [hstop] at h
        rcases spansBetween_cases h with ⟨span, rfl, hle, hspan⟩ |
          ⟨⟨hnone, hnone'⟩, span, current, previous, rfl, _, _, hcurrent, hprevious⟩
        · refine ⟨.inl rfl, fun _ => ?_, fun _ s hs => List.mem_singleton.1 hs ▸ hle⟩
          cases hyear : range.start.namedYear? with
          | none => exact not_overtakes_of_le hstop (hspan hyear) hle
          | some year =>
              have hnot : ∀ year, ¬range.Overtakes year seen.month := by
                rintro _ ⟨_, _, _, hnone, _⟩
                cases hyear.symm.trans hnone
              exact ⟨hnot _, hnot _⟩
        · -- the first span belongs to the year, the second to the year before
          have hearlier : spanIn range.start stop seen.month (seen.year - 1) (seen.year - 1 + 1) =
              .ok previous := by
            rw [Int.sub_add_cancel]
            exact hprevious
          rw [overtakes_iff hstop hnone hnone' hcurrent, overtakes_iff hstop hnone hnone' hearlier]
          simp
  · intro year span last hyear hspan hlast hgt
    unfold DateRange.spans
    rw [hstop]
    exact spansBetween_of_namedYear hyear hspan hlast hgt

/-- From 24 December to 2 January. -/
def christmas : DateRange := .between (.ofMonthDay 12 24) (.ofMonthDay 1 2)

/-- From ten days after 31 December to 1 January. -/
def lateStart : DateRange := .between ((DatePoint.ofMonthDay 12 31).laterBy 10) (.ofMonthDay 1 1)

/-- The same in 2021. -/
def lateStart2021 : DateRange := { lateStart with start := lateStart.start.inYear 2021 }

/-- Seen from December 2021 Christmas has two spans in order; the late start of 2021 is refused. -/
theorem spans_in_order_iff_christmas :
    (∃ spans, christmas.spans ⟨2021, 12⟩ = .ok spans ∧ spans.length = 2 ∧
      ∀ s ∈ spans, s.start ≤ s.stop) ∧
    lateStart2021.spans ⟨2021, 6⟩ =
      .error (.startAfterEnd ⟨738530, by decide, by decide⟩ ⟨738521, by decide, by decide⟩) := by
  refine ⟨?_, ?_⟩
  · obtain ⟨horder, hstop⟩ := spans_in_order_iff christmas ⟨2021, 12⟩
    have hnot := (hstop (.ofMonthDay 1 2) rfl).1 (.inl ⟨rfl, rfl⟩)
    have hspans : christmas.spans ⟨2021, 12⟩ =
        .ok [⟨⟨738513, by decide, by decide⟩, ⟨738522, by decide, by decide⟩⟩,
          ⟨⟨738148, by decide, by decide⟩, ⟨738157, by decide, by decide⟩⟩] := by decide +kernel
    exact ⟨_, hspans, rfl, (horder _ hspans).2.2 ⟨hnot _ _, hnot _ _⟩⟩
  · obtain ⟨_, hstop⟩ := spans_in_order_iff lateStart2021 ⟨2021, 6⟩
    refine (hstop (.ofMonthDay 1 1) rfl).2 2021
      ⟨⟨738530, by decide, by decide⟩, ⟨738156, by decide, by decide⟩⟩ _ ?_ ?_ ?_ ?_
    all_goals decide +kernel

/-- Without a year the late start is not refused, and its spans run backwards. -/
theorem not_in_order_lateStart :
    ∃ spans, lateStart.spans ⟨2021, 6⟩ = .ok spans ∧ spans.length = 2 ∧
      ∀ s ∈ spans, ¬s.start ≤ s.stop := by
  have hspans : lateStart.spans ⟨2021, 6⟩ =
      .ok [⟨⟨738530, by decide, by decide⟩, ⟨738521, by decide, by decide⟩⟩,
        ⟨⟨738165, by decide, by decide⟩, ⟨738156, by decide, by decide⟩⟩] := by decide +kernel
  exact ⟨_, hspans, rfl, by decide⟩

end DateRange

end OpeningHours
