import OpeningHours.Hours
import OpeningHours.Proofs.OwnMonth

/-!
# What is looked up at an instant

Asked for an instant, a timetable goes to the day of the instant and looks for an interval that
is in force from its minute on; where there is none, it takes one that ends there. As the
intervals of a day come one after the other, that is the one that was in force the minute before.

So the end of an interval still counts, as long as the instant of the end is one of the interval's
own day. An interval that ends at 24:00 ends at midnight of the next day, and there the minute
before is looked for in vain: it belongs to a day that is not looked at.
-/

namespace OpeningHours

/-! ## In a day -/

namespace Timeline

variable {list : Timeline} {minute : Nat}

/-- Where nothing is in force, what ends at a minute is what was in force the minute before. -/
theorem map_label_find?_containsClosed (h : list.Tidy) (hfree : list.labelAt minute = none) :
    (List.find? (Interval.containsClosed · minute) list).map Interval.label =
      if minute = 0 then none else list.labelAt (minute - 1) := by
  -- an interval that has the minute for its end only has the minute before
  have hend : ∀ iv ∈ list, iv.containsClosed minute = true →
      minute ≠ 0 ∧ iv.contains (minute - 1) = true := by
    intro iv hiv hclosed
    have hopen := Interval.contains_eq_false_iff.1 (labelAt_eq_none_iff.1 hfree iv hiv)
    have hlt := h.minutes iv hiv
    rw [Interval.containsClosed_iff] at hclosed
    rw [Interval.contains_iff]
    omega
  cases hfind : List.find? (Interval.containsClosed · minute) list with
  | some iv =>
      obtain ⟨hpos, hbefore⟩ := hend iv (List.mem_of_find?_eq_some hfind)
        (List.find?_some (p := (Interval.containsClosed · minute)) hfind)
      rw [if_neg hpos, Option.map_some, eq_comm, labelAt_eq_some_iff h.pairwise_apart]
      exact ⟨iv, List.mem_of_find?_eq_some hfind, hbefore, rfl⟩
  | none =>
      rw [Option.map_none]
      split
      · rfl
      · rename_i hpos
        refine (labelAt_eq_none_iff.2 fun iv hiv => ?_).symm
        have hclosed := List.find?_eq_none.1 hfind iv hiv
        rw [Interval.containsClosed_iff] at hclosed
        rw [Interval.contains_eq_false_iff]
        omega

/-- In the minute before its end an interval is in force. -/
theorem labelAt_before_stop (h : list.Tidy) {iv : Interval} (hiv : iv ∈ list) :
    list.labelAt (iv.stop - 1) = some iv.label := by
  have hlt := h.minutes iv hiv
  refine (labelAt_eq_some_iff h.pairwise_apart).2 ⟨iv, hiv, ?_, rfl⟩
  rw [Interval.contains_iff]
  omega

end Timeline

namespace DayPlan

variable {day : DayPlan}

/-- At a minute counts the label of the minute, or else that of the minute before. -/
theorem map_label_at? (h : day.intervals.Tidy) (minute : Nat) :
    (day.at? minute).map Interval.label = (day.intervals.labelAt minute).or
      (if minute = 0 then none else day.intervals.labelAt (minute - 1)) := by
  unfold at?
  rw [Option.map_or]
  show (day.intervals.labelAt minute).or _ = _
  cases hlabel : day.intervals.labelAt minute with
  | some label => rfl
  | none => rw [Option.none_or, Option.none_or, Timeline.map_label_find?_containsClosed h hlabel]

/-- Where nothing goes on, an interval still counts at its end. -/
theorem map_label_at?_stop (h : day.intervals.Tidy) {iv : Interval} (hiv : iv ∈ day.intervals)
    (hfree : day.inForce? iv.stop = none) : (day.at? iv.stop).map Interval.label = some iv.label := by
  have hlt := h.minutes iv hiv
  have hnone : day.intervals.labelAt iv.stop = none := congrArg (Option.map Interval.label) hfree
  rw [map_label_at? h, hnone, Option.none_or, if_neg (by omega)]
  exact Timeline.labelAt_before_stop h hiv

/-- At midnight nothing counts but what is in force from there on. -/
theorem at?_zero (h : day.intervals.Tidy) (hfree : day.inForce? 0 = none) : day.at? 0 = none := by
  have hnone : day.intervals.labelAt 0 = none := congrArg (Option.map Interval.label) hfree
  have hlabel := map_label_at? h 0
  rw [hnone, Option.none_or, if_pos rfl] at hlabel
  exact Option.map_eq_none_iff.1 hlabel

end DayPlan

/-! ## In a timetable -/

theorem Standing.ofInterval?_eq {a? b? : Option Interval}
    (h : a?.map Interval.label = b?.map Interval.label) : ofInterval? a? = ofInterval? b? := by
  cases a? <;> cases b? <;> simp_all [ofInterval?]

theorem Timetable.tidy_day {rules : List Rule} {env : Setting} {d : Date} {t : Timetable}
    (ht : around rules env d = .ok t) (w : Weekday) : (t.day w).Tidy := by
  have hmonday := (around_eq_ok_iff.1 ht).1
  rw [← Week.weekday_date hmonday w]
  exact (day_inOwnMonth ht (Week.monday?_date hmonday w.index)).tidy

/-! ## The end of an interval -/

namespace Instant

variable {e : Instant} {d : Date} {minute : Nat}

theorem date_and_minute_of_seconds (h : e.seconds = (midnight d).seconds + minute * 60)
    (hm : minute < minutesPerDay) : e.date = d ∧ e.minute = minute := by
  have hlt := e.second_lt
  unfold minutesPerDay at hm
  simp only [seconds, midnight] at h
  refine ⟨Date.ext (by omega), ?_⟩
  unfold Instant.minute
  omega

theorem minute_eq_zero_of_seconds (h : e.seconds = (midnight d).seconds + minutesPerDay * 60) :
    e.minute = 0 := by
  have hlt := e.second_lt
  simp only [seconds, midnight, minutesPerDay] at h
  unfold Instant.minute
  omega

end Instant

namespace Hours

variable {h : Hours} {d : Date} {t t' : Timetable} {iv : Interval} {e : Instant}

theorem exists_timetable_of_map {α : Type} {f : Timetable → α} {y : α}
    (hmap : (h.timetable d).toOption.map f = some y) : ∃ t, h.timetable d = .ok t ∧ f t = y := by
  cases ht : h.timetable d with
  | error fault =>
      rw [ht] at hmap
      cases hmap
  | ok t =>
      rw [ht] at hmap
      exact ⟨t, rfl, Option.some.inj hmap⟩

theorem standing_eq (ht : h.timetable e.date = .ok t) : h.standing e = .ok (t.standingAt e) := by
  unfold standing
  rw [ht]
  rfl

/--
**What holds at the end of an interval.**

Let nothing be in force from the instant at which an interval ends. If the interval ends before
24:00, what it says still holds there. If it ends at 24:00, the place is closed and nothing is
said about it, whatever the interval says. So the end counts exactly for intervals that end
before 24:00, and for those that say no more than that the place is closed.
-/
theorem standing_at_stop (ht : h.timetable d = .ok t) (hiv : iv ∈ (t.day d.weekday).intervals)
    (he : e.seconds = (Instant.midnight d).seconds + iv.stop * 60)
    (ht' : h.timetable e.date = .ok t')
    (hfree : (t'.day e.date.weekday).inForce? e.minute = none) :
    h.standing e = .ok (if iv.stop < minutesPerDay then ⟨iv.label.status, iv.label.comment?⟩
      else .closed) ∧
    (h.standing e = .ok ⟨iv.label.status, iv.label.comment?⟩ ↔
      iv.stop < minutesPerDay ∨ iv.label.status = .closed ∧ iv.label.comment? = none) := by
  have hstanding : h.standing e = .ok (if iv.stop < minutesPerDay then
      ⟨iv.label.status, iv.label.comment?⟩ else .closed) := by
    rw [standing_eq ht', Timetable.standingAt]
    by_cases hstop : iv.stop < minutesPerDay
    · -- the instant lies on the day of the interval itself
      obtain ⟨rfl, hminute⟩ := Instant.date_and_minute_of_seconds he hstop
      obtain rfl : t = t' := Except.ok.inj (ht.symm.trans ht')
      rw [hminute] at hfree ⊢
      have hat : Standing.ofInterval? ((t.day e.date.weekday).at? iv.stop) = .ofInterval? (some iv) :=
        Standing.ofInterval?_eq
          (DayPlan.map_label_at?_stop (Timetable.tidy_day ht _).intervals hiv hfree)
      rw [if_pos hstop, hat]
      rfl
    · have hday : iv.stop = minutesPerDay :=
        Nat.le_antisymm iv.stop_le_day (Nat.not_lt.1 hstop)
      rw [hday] at he
      rw [Instant.minute_eq_zero_of_seconds he] at hfree ⊢
      rw [if_neg hstop, DayPlan.at?_zero (Timetable.tidy_day ht' _).intervals hfree]
      rfl
  refine ⟨hstanding, ?_⟩
  rw [hstanding, Except.ok.injEq]
  split
  · rename_i hstop
    exact iff_of_true rfl (Or.inl hstop)
  · rename_i hstop
    rw [Standing.closed, Standing.mk.injEq, or_iff_right hstop, eq_comm, eq_comm (a := none)]

/-- A cinema that is open from 10:30 to 12:30 and from 20:00 to 24:00. -/
def cinema : Hours :=
  { rules := [{ id := ⟨"cinema"⟩, times := [.fixed 630 750, .fixed 1200 1440] }] }

/-- Monday, 21 June 2021. -/
def cinemaMonday : Date := ⟨738327, by decide, by decide⟩

/-- Tuesday, 22 June 2021. -/
def cinemaTuesday : Date := ⟨738328, by decide, by decide⟩

/-- The opening in the morning. -/
def matinee : Interval :=
  ⟨630, 750, { status := .opened, rule? := some ⟨"cinema"⟩ }, by decide, by decide, by decide⟩

/-- The opening in the evening. -/
def lateShow : Interval :=
  ⟨1200, 1440, { status := .opened, rule? := some ⟨"cinema"⟩ }, by decide, by decide, by decide⟩

/-- Monday, 21 June 2021, at 12:30. -/
def matineeEnd : Instant := ⟨cinemaMonday, 45000, by decide⟩

/-- At 12:30, when the matinee ends, the cinema counts as open. -/
theorem standing_at_stop_cinema :
    ∃ t, cinema.timetable cinemaMonday = .ok t ∧
      matinee ∈ (t.day cinemaMonday.weekday).intervals ∧
      matineeEnd.seconds = (Instant.midnight cinemaMonday).seconds + matinee.stop * 60 ∧
      (t.day matineeEnd.date.weekday).inForce? matineeEnd.minute = none ∧
      cinema.standing matineeEnd = .ok ⟨.opened, none⟩ := by
  have hmap : (cinema.timetable cinemaMonday).toOption.map (fun t =>
      ((t.day cinemaMonday.weekday).intervals,
        (t.day matineeEnd.date.weekday).inForce? matineeEnd.minute)) =
      some ([matinee, lateShow], none) := by
    decide +kernel
  obtain ⟨t, ht, hday⟩ := exists_timetable_of_map hmap
  obtain ⟨hintervals, hfree⟩ := Prod.mk.inj hday
  have hmem : matinee ∈ (t.day cinemaMonday.weekday).intervals := by
    rw [hintervals]
    exact List.mem_cons_self
  have hseconds : matineeEnd.seconds =
      (Instant.midnight cinemaMonday).seconds + matinee.stop * 60 := by decide
  have hend := (standing_at_stop ht hmem hseconds ht hfree).1
  rw [if_pos (by decide)] at hend
  exact ⟨t, ht, hmem, hseconds, hfree, hend⟩

/-- At 24:00, when the late show ends, it does not. -/
theorem not_standing_at_midnight_cinema :
    ∃ t t' e, cinema.timetable cinemaMonday = .ok t ∧
      lateShow ∈ (t.day cinemaMonday.weekday).intervals ∧
      e.seconds = (Instant.midnight cinemaMonday).seconds + lateShow.stop * 60 ∧
      cinema.timetable e.date = .ok t' ∧ (t'.day e.date.weekday).inForce? e.minute = none ∧
      cinema.standing e ≠ .ok ⟨lateShow.label.status, lateShow.label.comment?⟩ := by
  have hmonday : (cinema.timetable cinemaMonday).toOption.map (fun t => (t.day .mon).intervals) =
      some [matinee, lateShow] := by decide +kernel
  have htuesday : (cinema.timetable cinemaTuesday).toOption.map (fun t => (t.day .tue).inForce? 0) =
      some none := by decide +kernel
  obtain ⟨t, ht, hintervals⟩ := exists_timetable_of_map hmonday
  obtain ⟨t', ht', hfree⟩ := exists_timetable_of_map htuesday
  refine ⟨t, t', .midnight cinemaTuesday, ht, ?_, rfl, ht', hfree, by decide +kernel⟩
  show lateShow ∈ (t.day .mon).intervals
  rw [hintervals]
  exact List.mem_cons_of_mem _ List.mem_cons_self

end Hours

end OpeningHours
