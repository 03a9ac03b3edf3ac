import OpeningHours.Proofs.WeekPlan

/-!
# A date is planned alike in every week that has it

The seven days of a plan may start on any day. The first of them takes over what the eve hands
on, which is evaluated for this alone; the others take over what the day before them hands on.
And rules whose dates lie outside the seven days are passed over, though not for the eve. None
of this shows: the plan that a week has for a date is the plan of that date from all the rules,
with what the day before hands on, wherever the week starts.
-/

namespace OpeningHours

namespace Week

variable {w : Week} {d : Date}

theorem span_contains_iff :
    w.span.contains d = true ↔ w.first.number ≤ d.number ∧ d.number ≤ w.first.number + 6 :=
  DaySpan.contains_iff

/-- Every date of a week has its place. -/
theorem exists_date_eq (h : w.span.contains d = true) : ∃ i : Fin 7, w.date i.castSucc = d := by
  have hd := span_contains_iff.1 h
  refine ⟨⟨(d.number - w.first.number).toNat, by omega⟩, Date.ext ?_⟩
  simp only [date, Fin.val_castSucc]
  omega

end Week

namespace WeekPlan

variable {rules : List Rule} {first first' d : Date} {seen : YearMonth} {env : Setting}
  {p q : WeekPlan} {selections : List Selection}

/-- The days of a plan are its dates, each planned from all the rules and the day before. -/
theorem mem_days_iff (h : make rules first seen env = .ok p)
    (hsel : rules.mapM (Selection.ofRule seen) = .ok selections) {day : DayPlan} :
    day ∈ p.days ↔ p.week.span.contains day.date = true ∧ ∃ before : Date,
      before.number + 1 = day.date.number ∧ day = .following env selections before day.date := by
  obtain ⟨_, _, _, selections', hsel', hdays⟩ := make_eq_ok_iff.1 h
  cases hsel.symm.trans hsel'
  rw [hdays, daysOf_eq, List.mem_map]
  refine ⟨?_, ?_⟩
  · intro hgiven
    obtain ⟨i, _, rfl⟩ := hgiven
    rw [DayPlan.date_following]
    exact ⟨p.week.span_contains_date i, p.week.dayBefore i, Week.dayBefore_eq_iff.1 rfl, rfl⟩
  · intro hgiven
    obtain ⟨hspan, before, hbefore, hday⟩ := hgiven
    obtain ⟨i, hi⟩ := Week.exists_date_eq hspan
    rw [← hi] at hbefore hday
    refine ⟨i, List.mem_finRange i, ?_⟩
    rw [Week.dayBefore_eq_iff.2 hbefore, ← hday]

/-- A date of the week has one plan in it. -/
theorem mem_days_and_date_eq_iff (h : make rules first seen env = .ok p)
    (hsel : rules.mapM (Selection.ofRule seen) = .ok selections)
    (hd : p.week.span.contains d = true) {before : Date} (hbefore : before.number + 1 = d.number)
    {day : DayPlan} :
    day ∈ p.days ∧ day.date = d ↔ day = .following env selections before d := by
  rw [mem_days_iff h hsel]
  refine ⟨?_, ?_⟩
  · intro hgiven
    obtain ⟨⟨_, before', hbefore', hday⟩, rfl⟩ := hgiven
    obtain rfl : before' = before := Date.ext (by omega)
    exact hday
  · intro hday
    rw [hday, DayPlan.date_following]
    exact ⟨⟨hd, before, hbefore, rfl⟩, rfl⟩

/--
**A date is planned alike in every week that has it.**

Two weeks that start on different days, planned from the same rules as seen from the same month,
have one and the same plan for a date that lies in both: the plan of that date from all the
rules, with what the day before hands on. So the first day of a week, which the eve hands
something on to, is planned like the same date in the middle of another week.
-/
theorem plan_of_date_eq (h : make rules first seen env = .ok p)
    (h' : make rules first' seen env = .ok q)
    (hd : first.number ≤ d.number ∧ d.number ≤ first.number + 6)
    (hd' : first'.number ≤ d.number ∧ d.number ≤ first'.number + 6) :
    ∃ selections before, rules.mapM (Selection.ofRule seen) = .ok selections ∧
      before.number + 1 = d.number ∧ ∀ day,
        (day ∈ p.days ∧ day.date = d ↔ day = .following env selections before d) ∧
        (day ∈ q.days ∧ day.date = d ↔ day = .following env selections before d) := by
  obtain ⟨hfirst, _, _, selections, hsel, _⟩ := make_eq_ok_iff.1 h
  obtain ⟨hfirst', _⟩ := make_eq_ok_iff.1 h'
  rw [← hfirst] at hd
  rw [← hfirst'] at hd'
  have hspan : p.week.span.contains d = true := Week.span_contains_iff.2 hd
  have hspan' : q.week.span.contains d = true := Week.span_contains_iff.2 hd'
  -- the calendar has a day before `d`, as it has an eve of the week
  obtain ⟨i, rfl⟩ := Week.exists_date_eq hspan
  have hbefore := Week.dayBefore_eq_iff.1 (rfl : p.week.dayBefore i = _)
  refine ⟨selections, p.week.dayBefore i, hsel, hbefore, ?_⟩
  intro day
  exact ⟨mem_days_and_date_eq_iff h hsel hspan hbefore,
    mem_days_and_date_eq_iff h' hsel hspan' hbefore⟩

/-- Open on the night of Sunday, 6 June 2021, from 22:00 to 02:00. -/
def sundayNight : Rule :=
  { id := ⟨"sunday"⟩, dates := [.single (.ofYmd 2021 6 6)], times := [.fixed 1320 120] }

/-- Friday, 4 June 2021. -/
def fridayBefore : Date := ⟨738310, by decide, by decide⟩

/-- Monday, 7 June 2021. -/
def mondayAfter : Date := ⟨738313, by decide, by decide⟩

/--
The Monday after is open until 02:00 in the week that starts with it, where the rule is passed
over and heard for the eve alone, and in the week from Friday on, which has the Sunday.
-/
theorem plan_of_mondayAfter :
    ∃ p q, make [sundayNight] mondayAfter ⟨2021, 6⟩ {} = .ok p ∧
      make [sundayNight] fridayBefore ⟨2021, 6⟩ {} = .ok q ∧
      ∃ day ∈ p.days, day ∈ q.days ∧ day.date = mondayAfter ∧
        day.intervals.map Interval.span = [(0, 120)] := by
  obtain ⟨p, hp⟩ : ∃ p, make [sundayNight] mondayAfter ⟨2021, 6⟩ {} = .ok p := ⟨_, rfl⟩
  obtain ⟨q, hq⟩ : ∃ q, make [sundayNight] fridayBefore ⟨2021, 6⟩ {} = .ok q := ⟨_, rfl⟩
  obtain ⟨selections, before, hsel, hbefore, hday⟩ :=
    plan_of_date_eq hp hq (d := mondayAfter) (by decide) (by decide)
  obtain ⟨hp', hdate⟩ := (hday _).1.2 rfl
  obtain ⟨hq', _⟩ := (hday _).2.2 rfl
  refine ⟨p, q, hp, hq, _, hp', hq', hdate, ?_⟩
  obtain rfl : before = ⟨738312, by decide, by decide⟩ :=
    Date.ext ((Int.add_left_inj 1).1 hbefore)
  cases hsel
  decide +kernel

end WeekPlan

end OpeningHours
