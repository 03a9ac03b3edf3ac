import OpeningHours.Hours
import OpeningHours.Proofs.OwnMonth
import OpeningHours.Proofs.WeekText

/-!
# The week that is shown is the week that is asked

A timetable of two plans is asked day by day, and each day is looked up in the plan of its month.
To be shown it is made into one plan first: the days of the second plan that lie outside the month
of the first are written into the places of their weekdays.

A day of the second plan stands at the place of its weekday already, because both plans start on
the Monday. So every place is written to at most once, with the very day that a question would be
answered from, and it is kept where the question would be answered from the first plan.
-/

namespace OpeningHours

theorem Weekday.index_getElem_all (i : Nat) (hi : i < all.length) : (all[i].index : Nat) = i := by
  revert i
  decide

theorem Weekday.mem_all (w : Weekday) : w ∈ all := by
  cases w <;> decide

namespace WeekPlan

variable {rules : List Rule} {first d : Date} {seen : YearMonth} {env : Setting} {p : WeekPlan}

/-- A plan is the row of its days. -/
theorem days_eq_map_day (p : WeekPlan) : p.days = Weekday.all.map p.day := by
  refine List.ext_getElem p.length_days ?_
  intro i _ hi
  have hall : i < Weekday.all.length := by rwa [List.length_map] at hi
  rw [List.getElem_map, day, List.get_eq_getElem]
  exact getElem_congr_idx (Weekday.index_getElem_all i hall).symm

theorem weekday_day (h : make rules first seen env = .ok p) (hmonday : d.monday? = some p.week.first)
    (w : Weekday) : (p.day w).weekday = w := by
  rw [DayPlan.weekday, date_day h]
  exact Week.weekday_date hmonday w

/-! ## Days put in their places -/

theorem day_setDay (p : WeekPlan) (day : DayPlan) (w : Weekday) :
    (p.setDay day).day w = if day.weekday = w then day else p.day w := by
  simp only [WeekPlan.day, setDay, List.get_eq_getElem, List.getElem_set]
  by_cases hw : day.weekday = w
  · rw [if_pos hw, if_pos (by rw [hw])]
  · -- different days of the week have different places
    have hindex : (day.weekday.index : Nat) ≠ w.index := by
      intro hsame
      apply hw
      rw [← Weekday.ofIndex_index day.weekday, Fin.ext hsame, Weekday.ofIndex_index]
    rw [if_neg hw, if_neg hindex]

/-- Puts the days of a list in their places, but for the weekdays whose days are kept. -/
def putDays (keep : Weekday → Bool) (days : List DayPlan) (p : WeekPlan) : WeekPlan :=
  days.foldl (fun plan day => if keep day.weekday then plan else plan.setDay day) p

variable {keep : Weekday → Bool} {days : List DayPlan}

theorem putDays_frame (keep : Weekday → Bool) (days : List DayPlan) (p : WeekPlan) :
    (putDays keep days p).seen = p.seen ∧ (putDays keep days p).week = p.week ∧
      (putDays keep days p).rules = p.rules := by
  induction days generalizing p with
  | nil => exact ⟨rfl, rfl, rfl⟩
  | cons day rest ih =>
      rw [putDays, List.foldl_cons, ← putDays]
      by_cases hkeep : keep day.weekday = true
      · rw [if_pos hkeep]
        exact ih p
      · rw [if_neg hkeep]
        exact ih (p.setDay day)

/-- Where a day is not kept and the list has one for it, that day is found afterwards. -/
theorem day_putDays {dayOf : Weekday → DayPlan} (h : ∀ day ∈ days, dayOf day.weekday = day)
    (p : WeekPlan) (w : Weekday) :
    (putDays keep days p).day w =
      if keep w = false ∧ w ∈ days.map DayPlan.weekday then dayOf w else p.day w := by
  induction days generalizing p with
  | nil => rw [List.map_nil, if_neg fun hgiven => List.not_mem_nil hgiven.2, putDays, List.foldl_nil]
  | cons day rest ih =>
      have hday := h day List.mem_cons_self
      have hrest := ih fun later hlater => h later (List.mem_cons_of_mem day hlater)
      rw [putDays, List.foldl_cons, ← putDays, hrest, List.map_cons]
      simp only [List.mem_cons]
      by_cases hw : w = day.weekday
      · -- the place of the day itself: a later day for it would be the same one
        subst hw
        rw [hday]
        by_cases hkeep : keep day.weekday = true
        · simp [hkeep]
        · simp [hkeep, day_setDay]
      · have hplan : (if keep day.weekday then p else p.setDay day).day w = p.day w := by
          split
          · rfl
          · rw [day_setDay, if_neg (Ne.symm hw)]
        rw [hplan]
        simp only [hw, false_or]

end WeekPlan

namespace Timetable

variable {rules : List Rule} {env : Setting} {d : Date} {t : Timetable}

theorem joined_eq_putDays {other : WeekPlan} (h : t.other? = some other) :
    t.joined = WeekPlan.putDays t.main.isInMonth other.days t.main := by
  rw [joined, h]
  rfl

theorem joined_frame (t : Timetable) :
    t.joined.seen = t.main.seen ∧ t.joined.week = t.main.week ∧ t.joined.rules = t.main.rules := by
  cases h : t.other? with
  | none =>
      rw [joined, h]
      exact ⟨rfl, rfl, rfl⟩
  | some other =>
      rw [joined_eq_putDays h]
      exact WeekPlan.putDays_frame _ _ _

/-- At every place the joined plan has the day that is looked up. -/
theorem day_joined (h : around rules env d = .ok t) (w : Weekday) : t.joined.day w = t.day w := by
  obtain ⟨hmonday, _, hother⟩ := around_eq_ok_iff.1 h
  split at hother
  · obtain ⟨other, hmake, hsome⟩ := hother
    have hweek : other.week.first = t.week.first := (WeekPlan.make_eq_ok_iff.1 hmake).1
    have hplace : ∀ v, (other.day v).weekday = v :=
      WeekPlan.weekday_day hmake (hmonday.trans (congrArg some hweek.symm))
    have hdays : ∀ day ∈ other.days, other.day day.weekday = day := by
      intro day hday
      rw [WeekPlan.days_eq_map_day, List.mem_map] at hday
      obtain ⟨v, _, rfl⟩ := hday
      rw [hplace]
    have hmem : w ∈ other.days.map DayPlan.weekday := by
      rw [WeekPlan.days_eq_map_day, List.map_map, List.mem_map]
      exact ⟨w, Weekday.mem_all w, hplace w⟩
    rw [joined_eq_putDays hsome, WeekPlan.day_putDays hdays, day, hsome]
    dsimp only
    by_cases hmonth : t.main.isInMonth w = true
    · rw [if_pos hmonth, if_neg fun hgiven => Bool.false_ne_true (hgiven.1.symm.trans hmonth)]
    · rw [if_neg hmonth, if_pos ⟨Bool.not_eq_true _ ▸ hmonth, hmem⟩]
  · rw [joined, day, hother]

theorem days_joined (h : around rules env d = .ok t) : t.joined.days = Weekday.all.map t.day := by
  rw [WeekPlan.days_eq_map_day]
  exact List.map_congr_left fun w _ => day_joined h w

theorem date_day (h : around rules env d = .ok t) (w : Weekday) :
    (t.day w).date = t.week.date w.index.castSucc := by
  have hmonday := (around_eq_ok_iff.1 h).1
  have hdate := (day_inOwnMonth h (Week.monday?_date hmonday w.index)).date_eq
  rwa [Week.weekday_date hmonday w] at hdate

end Timetable

/-- One plan in segments, from the Monday of its week to the next Monday. -/
def WeekPlan.segments (p : WeekPlan) : List (Segment Instant) :=
  Segment.coalesce <| (List.finRange 7).flatMap fun i =>
    (p.day (.ofIndex i)).segments.map fun segment =>
      { start := p.week.instant i segment.start
        stop := p.week.instant i segment.stop
        status := segment.status
        comment? := segment.comment? }

namespace Timetable

variable {rules : List Rule} {env : Setting} {d : Date} {t : Timetable}

theorem segments_joined (h : around rules env d = .ok t) : t.joined.segments = t.segments := by
  have hmonday := (around_eq_ok_iff.1 h).1
  have hweek : t.joined.week = t.week := (joined_frame t).2.1
  have hplace : ∀ i, (t.week.date i.castSucc).weekday = .ofIndex i := by
    intro i
    rw [← Weekday.ofIndex_index (t.week.date i.castSucc).weekday, Week.index_weekday_date hmonday]
  unfold WeekPlan.segments segments daySegments
  simp only [day_joined h, hweek, hplace]

theorem weekday_first (h : around rules env d = .ok t) : t.week.first.weekday = .mon := by
  have hfirst : t.week.date 0 = t.week.first := Date.ext (Int.add_zero _)
  rw [← hfirst]
  exact Week.weekday_date (around_eq_ok_iff.1 h).1 .mon

theorem numbers_joined (h : around rules env d = .ok t) :
    t.joined.days.map (·.date.number) = (List.range 7).map (t.week.first.number + ·) := by
  have hnumber : ∀ w, (t.day w).date.number = t.week.first.number + (w.index : Nat) := by
    intro w
    rw [date_day h]
    rfl
  rw [days_joined h, List.map_map]
  simp only [Function.comp_def, hnumber]
  rfl

theorem line_day (h : around rules env d = .ok t) (write : Interval → String) (w : Weekday) :
    (t.day w).line write = w.abbreviation ++ " " ++ (t.week.date w.index.castSucc).toText ++ ": " ++
      if (t.day w).intervals.isEmpty then "closed"
      else String.intercalate ", " ((t.day w).intervals.map write) := by
  rw [DayPlan.line, DayPlan.weekday, date_day h, Week.weekday_date (around_eq_ok_iff.1 h).1]

/-- The text of a week has a line for each date, with the intervals that are looked up for it. -/
theorem weekText_eq (h : around rules env d = .ok t) (write : Interval → String) :
    Hours.weekText ⟨rules, env⟩ write d =
      .ok (String.intercalate "\n" (Weekday.all.map fun w =>
        w.abbreviation ++ " " ++ (t.week.date w.index.castSucc).toText ++ ": " ++
          if (t.day w).intervals.isEmpty then "closed"
          else String.intercalate ", " ((t.day w).intervals.map write))) := by
  have htable : Hours.timetable ⟨rules, env⟩ d = .ok t := h
  rw [Hours.weekText, htable]
  show Except.ok (t.joined.lines write) = _
  rw [WeekPlan.lines, days_joined h, List.map_map]
  simp only [Function.comp_def, line_day h]

/-- A date of the week has one day of the joined plan, the one that is looked up for it. -/
theorem mem_days_joined_iff (h : around rules env d = .ok t) {date : Date}
    (hdate : date.monday? = some t.week.first) {day : DayPlan} :
    day ∈ t.joined.days ∧ day.date = date ↔ day = t.day date.weekday := by
  rw [days_joined h, List.mem_map]
  constructor
  · intro hday
    obtain ⟨⟨w, _, rfl⟩, hw⟩ := hday
    -- the weekday of the date says which day it is
    rw [← hw, date_day h, Week.weekday_date (around_eq_ok_iff.1 h).1]
  · intro hday
    rw [hday]
    exact ⟨⟨_, Weekday.mem_all _, rfl⟩, (day_inOwnMonth h hdate).date_eq⟩

/--
**The week that is shown is the week that is asked.**

The joined plan keeps the month, the week and the rules of the first plan, and at every weekday it
has the very day that is looked up there. Its days are the seven dates from the Monday on, in their
order. What is written of the week is a line for each of these dates: its weekday, the date itself,
and its intervals in their order, or that it is closed if it has none. In the short form an interval
is told by its hours, its status and its comment; the long form tells the hours and the status, and
the two forms together tell all there is of an interval. What holds from an instant of the week on
is read off the intervals of the one day that has its date, and the segments are theirs.
-/
theorem joined_shows_days (h : around rules env d = .ok t) :
    (t.joined.seen = t.main.seen ∧ t.joined.week = t.main.week ∧ t.joined.rules = t.main.rules) ∧
      (∀ w, t.joined.day w = t.day w) ∧
      (∃ monday, d.monday? = some monday ∧ t.joined.week.first = monday ∧ monday.weekday = .mon ∧
        t.joined.days.map (·.date.number) = (List.range 7).map (monday.number + ·)) ∧
      (∀ write, Hours.weekText ⟨rules, env⟩ write d =
        .ok (String.intercalate "\n" (Weekday.all.map fun w =>
          w.abbreviation ++ " " ++ (t.week.date w.index.castSucc).toText ++ ": " ++
            if (t.day w).intervals.isEmpty then "closed"
            else String.intercalate ", " ((t.day w).intervals.map write)))) ∧
      (∀ a b : Interval, a.brief = b.brief ↔ a.span = b.span ∧
        a.label.status = b.label.status ∧ a.label.comment? = b.label.comment?) ∧
      (∀ a b : Interval, a.full = b.full → a.span = b.span ∧ a.label.status = b.label.status) ∧
      (∀ a b : Interval, a.brief = b.brief ∧ a.full = b.full ↔ a = b) ∧
      (∀ i : Instant, i.date.monday? = d.monday? → ∃ day ∈ t.joined.days, day.date = i.date ∧
        (∀ day' ∈ t.joined.days, day'.date = i.date → day' = day) ∧
        t.standingFrom i = .ofInterval? (day.inForce? i.minute)) ∧
      t.segments = t.joined.segments := by
  have hmonday := (around_eq_ok_iff.1 h).1
  have hweek : t.joined.week.first = t.week.first := congrArg Week.first (joined_frame t).2.1
  refine ⟨joined_frame t, day_joined h, ?_, weekText_eq h, fun _ _ => Interval.brief_eq_iff,
    fun _ _ => Interval.span_and_status_eq_of_full_eq, fun _ _ => Interval.brief_and_full_eq_iff,
    ?_, (segments_joined h).symm⟩
  · exact ⟨t.week.first, hmonday, hweek, weekday_first h, numbers_joined h⟩
  · intro i hi
    have hin : i.date.monday? = some t.week.first := hi.trans hmonday
    obtain ⟨hmem, hdate⟩ := (mem_days_joined_iff h hin).2 rfl
    refine ⟨t.day i.date.weekday, hmem, hdate, ?_, rfl⟩
    intro day' hday' hdate'
    exact (mem_days_joined_iff h hin).1 ⟨hday', hdate'⟩

/--
Shown for 30 June 2021 the week has Wednesday from the plan of June and Thursday from that of July,
where the rule for the start of a month selects it. The week runs from 28 June to 4 July.
-/
theorem joined_shows_days_monthStart :
    ∃ t, around [monthStart] {} lastOfJune = .ok t ∧ t.other?.isSome = true ∧
      t.joined.seen = ⟨2021, 6⟩ ∧
      t.joined.days.map (·.date.number) =
        [738334, 738335, 738336, 738337, 738338, 738339, 738340] ∧
      (t.joined.day .wed).intervals = [] ∧
      (t.joined.day .thu).intervals.map Interval.span = [(0, 1440)] ∧
      Hours.weekText ⟨[monthStart], {}⟩ Interval.full lastOfJune =
        .ok ("Mo 2021-06-28: closed\nTu 2021-06-29: closed\nWe 2021-06-30: closed\n" ++
          "Th 2021-07-01: 00:00-24:00 open [rule month]\n" ++
          "Fr 2021-07-02: 00:00-24:00 open [rule month]\n" ++
          "Sa 2021-07-03: closed\nSu 2021-07-04: closed") := by
  obtain ⟨t, ht⟩ : ∃ t, around [monthStart] {} lastOfJune = .ok t := ⟨_, rfl⟩
  obtain ⟨⟨hseen, _⟩, hday, ⟨monday, hmonday, _, _, hnumbers⟩, htext, _⟩ := joined_shows_days ht
  have hnumber : monday.number = 738334 := Date.monday?_eq_some_iff.1 hmonday
  rw [hnumber] at hnumbers
  refine ⟨t, ht, ?_, ?_, hnumbers, ?_, ?_, (htext Interval.full).trans ?_⟩
  · cases ht
    rfl
  · rw [hseen]
    cases ht
    decide +kernel
  · rw [hday]
    cases ht
    decide +kernel
  · rw [hday]
    cases ht
    decide +kernel
  · cases ht
    decide +kernel

end Timetable

end OpeningHours
