import OpeningHours.Proofs.OwnMonth

/-!
# Daily hours follow the clock

A rule that picks no days and writes its hours as minutes of a clock has the same hours on every
day. A span runs for its length from its start on; where that goes past 24:00, the rest is taken
over by the day after, be it a Monday, which has it from the eve, or the first of a month, which
has it from a day simulated in another month. So whether a span runs at a minute shows in the
minute: it does if the minute lies in it, or the minute a day later does.

No span is longer than a day and none starts after 24:00. Hence what the day before hands on is
over by the end of the day.
-/

namespace OpeningHours

/-- From one minute of a clock to another, or a single minute. -/
structure ClockSpan where
  start : UInt32
  stop? : Option UInt32
  deriving DecidableEq

namespace ClockSpan

/-- The span as rules write it. -/
def toTimeSpan (s : ClockSpan) : TimeSpan :=
  { start := .fixed s.start, stop? := s.stop?.map .fixed }

/-- Starts on the first of two days and stops by the end of the second. -/
structure OnTwoDays (s : ClockSpan) : Prop where
  start_lt : s.start.toNat < minutesPerDay
  stop_le : ∀ stop ∈ s.stop?, stop.toNat ≤ 2 * minutesPerDay

/--
How many minutes the span lasts. If it stops at or before its start, that is meant for the next
day; and after a day it stops anyway.
-/
def length (s : ClockSpan) : Nat :=
  match s.stop? with
  | none => 1
  | some stop =>
    if s.start.toNat < stop.toNat then min (stop.toNat - s.start.toNat) minutesPerDay
    else stop.toNat + minutesPerDay - s.start.toNat

/-- The minutes of the span, counted from midnight of the day it starts on. -/
def minutes (s : ClockSpan) : MinuteSpan := ⟨s.start.toNat, s.start.toNat + s.length⟩

theorem contains_or_contains_iff {s : ClockSpan} (h : s.OnTwoDays) (minute : Nat) :
    (s.minutes.contains minute = true ∨ s.minutes.contains (minute + minutesPerDay) = true) ↔
      (s.start.toNat ≤ minute ∧ minute < s.start.toNat + s.length) ∨
        minute + minutesPerDay < s.start.toNat + s.length := by
  have hstart := h.start_lt
  rw [MinuteSpan.contains_iff, MinuteSpan.contains_iff]
  refine or_congr Iff.rfl (and_iff_right ?_)
  show s.start.toNat ≤ _
  omega

theorem minuteOn_fixed {minute : UInt32} (h : minute.toNat ≤ 2 * minutesPerDay) (env : Setting)
    (d : Date) : (TimePoint.fixed minute).minuteOn env d = minute.toNat :=
  Nat.min_eq_left h

theorem minutesOn_toTimeSpan {s : ClockSpan} (h : s.OnTwoDays) (env : Setting) (d : Date) :
    s.toTimeSpan.minutesOn env d = s.minutes := by
  have hlt := h.start_lt
  have hstart := minuteOn_fixed (by omega : s.start.toNat ≤ 2 * minutesPerDay) env d
  unfold minutesPerDay at hlt
  unfold toTimeSpan TimeSpan.minutesOn minutes length
  dsimp only
  rw [hstart]
  cases hstop? : s.stop? with
  | none =>
      refine MinuteSpan.ext rfl ?_
      simp only [Option.map_none, minutesPerDay]
      omega
  | some stop =>
      refine MinuteSpan.ext rfl ?_
      dsimp only [Option.map_some]
      rw [minuteOn_fixed (h.stop_le stop hstop?)]
      unfold minutesPerDay
      -- a span that runs on to the next day is no longer than a day
      by_cases hlater : s.start.toNat < stop.toNat
      · rw [if_neg (by omega), if_pos hlater]
        omega
      · rw [if_pos (by omega), if_neg hlater]
        omega

end ClockSpan

/-- A rule that has the same hours every day, written as minutes of a clock. -/
structure Rule.IsDaily (r : Rule) (spans : List ClockSpan) : Prop where
  kind : r.kind = .override
  years : r.years = []
  weeks : r.weeks = []
  dates : r.dates = []
  weekdays : r.weekdays = []
  holidays : r.holidays = []
  times : r.times = spans.map ClockSpan.toTimeSpan
  nonempty : spans ≠ []
  onTwoDays : ∀ s ∈ spans, s.OnTwoDays

namespace Rule.IsDaily

open Selection

variable {r : Rule} {spans : List ClockSpan} {env : Setting} {d : Date} {day : DayPlan}
  {minute : Nat}

/-! ## The rule by itself -/

theorem hasDates_eq (h : r.IsDaily spans) : r.hasDates = false := by
  rw [Rule.hasDates, h.dates]
  rfl

theorem spansOn_eq (h : r.IsDaily spans) (env : Setting) (d : Date) :
    r.spansOn env d = spans.map ClockSpan.minutes := by
  have hne : r.times.isEmpty = false := by
    rw [h.times, List.isEmpty_eq_false_iff]
    exact mt List.map_eq_nil_iff.1 h.nonempty
  rw [Rule.spansOn, hne, if_neg Bool.false_ne_true, h.times, List.map_map]
  refine List.map_congr_left fun s hs => ?_
  exact ClockSpan.minutesOn_toTimeSpan (h.onTwoDays s hs) env d

theorem mapM_ofRule (h : r.IsDaily spans) (seen : YearMonth) :
    [r].mapM (ofRule seen) = .ok [⟨r, []⟩] := by
  refine mapM_eq_ok_iff_forall₂.2 (.cons (ofRule_eq_ok_iff.2 ⟨?_, rfl, [], ?_, rfl⟩) .nil)
  · rw [h.years]
    exact fun years hmem => absurd hmem List.not_mem_nil
  · rw [h.dates]
    rfl

theorem selects_eq (h : r.IsDaily spans) (env : Setting) (d : Date) :
    selects ⟨r, []⟩ env d = true := by
  unfold selects selectsYear selectsWeek selectsDay
  dsimp only
  rw [h.hasDates_eq, h.years, h.weeks, h.weekdays, h.holidays]
  rfl

/-- On every day the rule says of its minutes what it says. -/
theorem said_eq (h : r.IsDaily spans) (env : Setting) (d : Date) (minute : Nat) :
    said env d [⟨r, []⟩] minute =
      if ∃ s ∈ spans, s.minutes.contains minute = true then some r.label else none := by
  have hcovers : (r.spansOn env d).any (·.contains minute) = true ↔
      ∃ s ∈ spans, s.minutes.contains minute = true := by
    rw [h.spansOn_eq, List.any_map, List.any_eq_true]
    rfl
  unfold said
  rw [List.foldl_cons, List.foldl_nil, reviseAt, if_pos (h.selects_eq env d), Rule.revise, h.kind]
  exact if_congr hcovers rfl rfl

/-! ## The rule on the days of the calendar -/

/-- Every day has the minutes of the spans, and those that spill over from the day before. -/
theorem labelAt_eq (h : r.IsDaily spans) (hday : day.InOwnMonth [r] env d)
    (hm : minute < minutesPerDay) :
    day.intervals.labelAt minute =
      if ∃ s ∈ spans, s.minutes.contains minute = true ∨
        s.minutes.contains (minute + minutesPerDay) = true then some r.label else none := by
  obtain ⟨selections, before, hsel, _, rfl⟩ := hday
  obtain rfl := Except.ok.inj (hsel.symm.trans (h.mapM_ofRule d.yearMonth))
  rw [DayPlan.labelAt_intervals_following hm, h.said_eq, h.said_eq]
  simp only [and_or_left, exists_or]
  by_cases hspill : ∃ s ∈ spans, s.minutes.contains (minute + minutesPerDay) = true
  · rw [if_pos hspill, if_pos (Or.inr hspill)]
    rfl
  · rw [if_neg hspill, Option.none_or]
    simp only [hspill, or_false]

end Rule.IsDaily

namespace Timetable

variable {r : Rule} {spans : List ClockSpan} {env : Setting} {d : Date}

/-- A daily rule has a timetable wherever there is room for the week. -/
theorem exists_around_daily (h : r.IsDaily spans) :
    (∃ t, around [r] env d = .ok t) ↔ ∃ w : Week, d.monday? = some w.first := by
  refine exists_around_eq_ok_iff.trans (exists_congr fun w => and_iff_left ?_)
  exact fun seen _ => ⟨_, h.mapM_ofRule seen⟩

/-- What the rule says of an instant is told by its minute of the day. -/
theorem map_label_inForce?_daily (h : r.IsDaily spans) {i : Instant} {t : Timetable}
    (ht : around [r] env i.date = .ok t) :
    ((t.day i.date.weekday).inForce? i.minute).map Interval.label =
      if ∃ s ∈ spans, s.minutes.contains i.minute = true ∨
        s.minutes.contains (i.minute + minutesPerDay) = true then some r.label else none :=
  h.labelAt_eq (day_inOwnMonth ht (around_eq_ok_iff.1 ht).1) i.minute_lt

/--
**Daily hours follow the clock, midnight included.**

Let a rule have the same hours every day. Every date has a timetable whose week has room in the
calendar. An interval is in force at a minute of it just when a span has started that day and
lasts beyond the minute, or has started the day before and lasts beyond it still; the interval
bears what the rule says. So what holds from an instant on is told by its minute of the day.
-/
theorem inForce?_daily (h : r.IsDaily spans) (env : Setting) :
    (∀ d, (∃ t, around [r] env d = .ok t) ↔ ∃ w : Week, d.monday? = some w.first) ∧
      ∀ (i : Instant) t, around [r] env i.date = .ok t →
        ((∃ iv, (t.day i.date.weekday).inForce? i.minute = some iv) ↔
          ∃ s ∈ spans, (s.start.toNat ≤ i.minute ∧ i.minute < s.start.toNat + s.length) ∨
            i.minute + minutesPerDay < s.start.toNat + s.length) ∧
        (∀ iv, (t.day i.date.weekday).inForce? i.minute = some iv →
          iv.label.status = r.status ∧ iv.label.comment? = r.comment? ∧
            iv.label.rule? = some r.id) ∧
        ∀ (i' : Instant) t', around [r] env i'.date = .ok t' → i'.minute = i.minute →
          ((t'.day i'.date.weekday).inForce? i'.minute).map Interval.label =
            ((t.day i.date.weekday).inForce? i.minute).map Interval.label := by
  refine ⟨fun d => exists_around_daily h, fun i t ht => ?_⟩
  have hlabel := map_label_inForce?_daily h ht
  refine ⟨?_, ?_, ?_⟩
  · have hruns : ∀ s ∈ spans, _ ↔ _ := fun s hs =>
      ClockSpan.contains_or_contains_iff (h.onTwoDays s hs) i.minute
    rw [← exists_congr fun s => and_congr_right (hruns s), ← Option.isSome_iff_exists,
      ← Option.isSome_map (f := Interval.label), hlabel]
    split
    · rename_i hsome
      exact iff_of_true rfl hsome
    · rename_i hnone
      exact iff_of_false Bool.false_ne_true hnone
  · intro iv hiv
    rw [hiv, Option.map_some] at hlabel
    split at hlabel
    · rw [Option.some.inj hlabel]
      exact ⟨rfl, rfl, rfl⟩
    · cases hlabel
  · intro i' t' ht' hminute
    rw [hlabel, map_label_inForce?_daily h ht', hminute]

/-- A bar that is open at noon for a minute, from 22:00 to 02:00 and, once more, from 23:00 to 25:00. -/
def nightBar : Rule :=
  { id := ⟨"night"⟩, times := [.single 720, .fixed 1320 120, .fixed 1380 1500] }

/-- The hours of the bar. -/
def nightHours : List ClockSpan := [⟨720, none⟩, ⟨1320, some 120⟩, ⟨1380, some 1500⟩]

/-- Monday, 1 November 2021, at a minute of the day. -/
def novemberMonday (minute : Fin 1440) : Instant :=
  ⟨⟨738460, by decide, by decide⟩, minute * 60, by omega⟩

/-- On a Monday that is the first of a month the bar is open at 01:30, and at 03:00 it is not. -/
theorem inForce?_daily_nightBar :
    nightBar.IsDaily nightHours ∧ ∃ t, around [nightBar] {} (novemberMonday 90).date = .ok t ∧
      (∃ iv, (t.day .mon).inForce? 90 = some iv ∧ iv.label.rule? = some ⟨"night"⟩) ∧
      (t.day .mon).inForce? 180 = none := by
  have hdaily : nightBar.IsDaily nightHours :=
    { kind := rfl
      years := rfl
      weeks := rfl
      dates := rfl
      weekdays := rfl
      holidays := rfl
      times := rfl
      nonempty := List.cons_ne_nil _ _
      onTwoDays := by
        intro s hs
        simp only [nightHours, List.mem_cons, List.not_mem_nil, or_false] at hs
        rcases hs with rfl | rfl | rfl <;> exact ⟨by decide, by rintro stop ⟨⟩ <;> decide⟩ }
  obtain ⟨hexists, hminute⟩ := inForce?_daily hdaily {}
  obtain ⟨t, ht⟩ := (hexists (novemberMonday 90).date).2
    ⟨⟨(novemberMonday 90).date, by decide, by decide⟩, by decide⟩
  obtain ⟨hopen, hlabel, _⟩ := hminute (novemberMonday 90) t ht
  obtain ⟨iv, hiv⟩ := hopen.2 ⟨⟨1320, some 120⟩, by decide, by decide⟩
  refine ⟨hdaily, t, ht, ⟨iv, hiv, (hlabel iv hiv).2.2⟩, ?_⟩
  refine Option.eq_none_iff_forall_ne_some.2 fun iv hiv => ?_
  have hnever : ∀ s ∈ nightHours, ¬((s.start.toNat ≤ 180 ∧ 180 < s.start.toNat + s.length) ∨
      180 + minutesPerDay < s.start.toNat + s.length) := by decide
  obtain ⟨s, hs, hruns⟩ := ((hminute (novemberMonday 180) t ht).1).1 ⟨iv, hiv⟩
  exact hnever s hs hruns

end Timetable

end OpeningHours
