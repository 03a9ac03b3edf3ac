import OpeningHours.Proofs.Machine.Weeks
import OpeningHours.Proofs.Search

/-!
# Questions put to a timetable on machine numbers

Days are looked up at the place of their weekday. The instants of a week's segments are
reached from the midnights of its days, 24:00 of Sunday being the midnight after the week.
The search counts weeks, and stops long before its count or its days can fail: the date it
would look at leaves the calendar first.
-/

namespace OpeningHours.Machine

/-! ## Days of a timetable -/

/-- The day at the place of a weekday. -/
def planDay (p : WeekPlan) (w : Weekday) : Machine DayPlan := entry p.days w.index

/-- Whether the day at a weekday lies in the month of its plan. -/
def isInMonth (p : WeekPlan) (w : Weekday) : Machine Bool := do
  return (← planDay p w).date.yearMonth == p.seen

/-- The day that is looked up for a weekday. -/
def day (t : Timetable) (w : Weekday) : Machine DayPlan :=
  match t.other? with
  | some other => do if ← isInMonth t.main w then planDay t.main w else planDay other w
  | none => planDay t.main w

/-- Puts a day in the place of its weekday, if there is one. -/
def setDay (p : WeekPlan) (d : DayPlan) : Machine WeekPlan :=
  if d.weekday.index < p.days.length then .ok (p.setDay d) else .error (.noPlace d.weekday.index)

/-- The two plans of a timetable made into one. -/
def joined (t : Timetable) : Machine WeekPlan :=
  match t.other? with
  | some other => other.days.foldlM (fun plan d => do
      if ← isInMonth t.main d.weekday then return plan else setDay plan d) t.main
  | none => return t.main

theorem planDay_eq (p : WeekPlan) (w : Weekday) : planDay p w = .ok (p.day w) := by
  have hplace : (w.index : Nat) < p.days.length := by
    rw [p.length_days]
    exact w.index.isLt
  exact entry_eq (List.getElem?_eq_getElem hplace)

theorem isInMonth_eq (p : WeekPlan) (w : Weekday) : isInMonth p w = .ok (p.isInMonth w) := by
  rw [isInMonth, planDay_eq]
  rfl

theorem day_eq (t : Timetable) (w : Weekday) : day t w = .ok (t.day w) := by
  unfold day Timetable.day
  cases t.other? with
  | none => exact planDay_eq t.main w
  | some other =>
    simp only [isInMonth_eq, ok_bind, planDay_eq]
    split <;> rfl

theorem joined_eq (t : Timetable) : joined t = .ok t.joined := by
  unfold joined Timetable.joined
  cases t.other? with
  | none => rfl
  | some other =>
    refine foldlM_eq (fun plan d _ => ?_) t.main
    have hplace : (d.weekday.index : Nat) < plan.days.length := by
      rw [plan.length_days]
      exact d.weekday.index.isLt
    rw [isInMonth_eq, ok_bind, setDay, if_pos hplace]
    split <;> rfl

/-! ## Standing -/

/-- What holds at an instant, its minute being one of a day. -/
def standingAt (t : Timetable) (i : Instant) : Machine Standing := do
  let day ← day t i.date.weekday
  return .ofInterval? (day.at? (← clock i.minute))

/-- What holds from an instant on. -/
def standingFrom (t : Timetable) (i : Instant) : Machine Standing := do
  let day ← day t i.date.weekday
  return .ofInterval? (day.inForce? (← clock i.minute))

theorem standingAt_eq (t : Timetable) (i : Instant) : standingAt t i = .ok (t.standingAt i) := by
  rw [standingAt, day_eq, ok_bind, clock_eq i.minute_lt]
  rfl

theorem standingFrom_eq (t : Timetable) (i : Instant) : standingFrom t i = .ok (t.standingFrom i) := by
  rw [standingFrom, day_eq, ok_bind, clock_eq i.minute_lt]
  rfl

/-! ## Segments -/

theorem second_of_minute (minute : Nat) : minute % minutesPerDay * 60 < 86400 := by
  unfold minutesPerDay
  omega

/-- The instant a number of minutes after midnight of a date, with nothing to answer when there is none. -/
def instant (d : Date) (minute : Nat) : Machine Instant := do
  let minute := min minute minutesPerDay
  let date ← addDays d (minute / minutesPerDay : Nat)
  return ⟨date, minute % minutesPerDay * 60, second_of_minute minute⟩

/-- A segment of a day as instants. -/
def segmentOn (d : Date) (g : Segment Nat) : Machine (Segment Instant) := do
  let start ← instant d g.start
  let stop ← instant d g.stop
  return { start, stop, status := g.status, comment? := g.comment? }

/-- The segments of the day so many days after the Monday. -/
def daySegments (t : Timetable) (i : Nat) : Machine (List (Segment Instant)) := do
  let date ← addDays t.week.first i
  let day ← day t date.weekday
  day.segments.mapM (segmentOn date)

/-- The segments of the week. -/
def segments (t : Timetable) : Machine (List (Segment Instant)) := do
  let days ← (List.range 7).mapM (daySegments t)
  return Segment.coalesce days.flatten

theorem instant_eq (w : Week) (i : Fin 7) (minute : Nat) :
    instant (w.date i.castSucc) minute = .ok (w.instant i minute) := by
  unfold Week.instant
  by_cases hin : minute < minutesPerDay
  · have hmin : min minute minutesPerDay = minute := Nat.min_eq_left (Nat.le_of_lt hin)
    have hdate : addDays (w.date i.castSucc) (minute / minutesPerDay : Nat) = .ok (w.date i.castSucc) := by
      rw [Nat.div_eq_of_lt hin]
      exact addDays_eq (Int.add_zero _).symm
    rw [dif_pos hin, instant]
    simp only [hmin, hdate, ok_bind, pure_eq_ok, Nat.mod_eq_of_lt hin]
  · have hmin : min minute minutesPerDay = minutesPerDay := Nat.min_eq_right (Nat.not_lt.1 hin)
    -- 24:00 is the midnight of the next date, which for Sunday is the one after the week
    have hdate : addDays (w.date i.castSucc) (minutesPerDay / minutesPerDay : Nat) =
        .ok (w.date i.succ) := by
      refine addDays_eq ?_
      have hone : minutesPerDay / minutesPerDay = 1 := by decide
      simp only [Week.date, Fin.val_succ, Fin.val_castSucc, hone]
      omega
    rw [dif_neg hin, instant]
    simp only [hmin, hdate, ok_bind, pure_eq_ok, Nat.mod_self]
    rfl

theorem segments_eq (t : Timetable) : segments t = .ok t.segments := by
  have hdays : ∀ i : Fin 7, daySegments t i = .ok (t.daySegments i) := by
    intro i
    have hdate : addDays t.week.first (i : Nat) = .ok (t.week.date i.castSucc) := addDays_eq rfl
    rw [daySegments, hdate, ok_bind, day_eq, ok_bind]
    refine mapM_eq fun g _ => ?_
    rw [segmentOn, instant_eq, ok_bind, instant_eq, ok_bind]
    rfl
  rw [segments, mapM_range_eq hdays, ok_bind, Timetable.segments, List.flatMap_def]
  rfl

/-! ## The search for a change -/

/-- The date so many weeks away in the direction of the search; the days must fit a duration. -/
def anchor? (s : ChangeSearch) (weeks : Nat) : Machine (Option Date) := do
  let days ← int64 (7 * weeks)
  let days ← duration days
  match s.direction with
  | .forward => return s.origin.date.add? days
  | .backward => return s.origin.date.add? (-days)

/-- One step of the search, which counts the weeks in 32 bits. -/
def step (s : ChangeSearch) (weeks : Nat) : ExceptT HoursError Machine Progress := do
  if s.env.horizon < weeks then return .settled s.lasting
  match ← anchor? s weeks with
  | none => return .settled s.lasting
  | some anchor => do
    let timetable ← around s.rules s.env anchor
    match s.changeIn? (← segments timetable) with
    | some outlook => return .settled outlook
    | none => return .searching (← uint32 (weeks + 1))

/-- The search could look at no more weeks than the calendar has. -/
theorem anchor?_eq (s : ChangeSearch) {weeks : Nat} (hweeks : weeks < 0x100000000) :
    anchor? s weeks = .ok (s.anchor? weeks) := by
  rw [anchor?, int64_eq (by omega), ok_bind, duration_eq (by omega), ok_bind, ChangeSearch.anchor?]
  cases s.direction <;> rfl

theorem yields_step {s : ChangeSearch} (hnumbers : ∀ d, s.env.weekOf d < 0x100000000) {weeks : Nat}
    (hweeks : weeks < 0x100000000) : Yields (step s weeks) (s.step weeks) := by
  unfold step ChangeSearch.step
  by_cases hfar : s.env.horizon < weeks
  · rw [if_pos hfar, if_pos hfar]
    exact yields_pure _
  · rw [if_neg hfar, if_neg hfar]
    refine .step (anchor?_eq s hweeks) ?_
    cases hanchor : s.anchor? weeks with
    | none => exact yields_pure _
    | some anchor =>
      -- a date was found so many weeks away, so the count is far from its bound
      have hnext := ChangeSearch.weeks_le_of_anchor? hanchor
      have htimetable := yields_around hnumbers s.rules anchor
      cases ht : Timetable.around s.rules s.env anchor with
      | error e =>
        rw [ht] at htimetable
        simp only [ht]
        exact htimetable.bind_error _
      | ok t =>
        rw [ht] at htimetable
        simp only [ht]
        refine htimetable.bind (g := fun _ => _) ?_
        rintro _ ⟨⟩
        refine .step (segments_eq t) ?_
        cases s.changeIn? t.segments with
        | some outlook => exact yields_pure _
        | none =>
          refine .step (uint32_eq (Int.natCast_succ weeks).symm (by omega)) ?_
          exact yields_pure _

/-- A step that does not settle the search goes on to the next week, and stays within the horizon. -/
theorem searching_of_step {s : ChangeSearch} {weeks next : Nat}
    (h : (step s weeks).run = .ok (.ok (.searching next))) :
    next = weeks + 1 ∧ weeks ≤ s.env.horizon := by
  unfold step at h
  split at h
  · cases h
  · rename_i hwithin
    obtain ⟨anchor?, _, h⟩ := exists_of_run_bind h
    cases anchor? with
    | none => cases h
    | some anchor =>
      obtain ⟨timetable, _, h⟩ := exists_of_run_bind h
      obtain ⟨segments, _, h⟩ := exists_of_run_bind h
      split at h
      · cases h
      · obtain ⟨count, hcount, h⟩ := exists_of_run_bind h
        have hnext := (uint32_eq_ok_iff.1 (eq_ok_of_run_liftM hcount)).1
        cases h
        omega

/-- Searches on from so many weeks away. -/
def finish (s : ChangeSearch) (weeks : Nat) : ExceptT HoursError Machine Outlook :=
  match h : (step s weeks).run with
  | .error breach => liftM (.error breach : Machine Outlook)
  | .ok (.error e) => throw e
  | .ok (.ok (.settled outlook)) => return outlook
  | .ok (.ok (.searching next)) =>
    have := searching_of_step h
    finish s next
termination_by s.env.horizon + 1 - weeks

theorem finish_eq (s : ChangeSearch) (weeks : Nat) :
    finish s weeks = step s weeks >>= fun progress =>
      match progress with
      | .settled outlook => return outlook
      | .searching next => finish s next := by
  rw [finish]
  show _ = (step s weeks).run >>= ExceptT.bindCont _
  split <;> rename_i hstep <;> simp only [hstep] <;> rfl

theorem yields_finish {s : ChangeSearch} (hnumbers : ∀ d, s.env.weekOf d < 0x100000000) {weeks : Nat}
    (hweeks : weeks < 0x100000000) : Yields (finish s weeks) (s.finish weeks) := by
  rw [finish_eq, ChangeSearch.finish_eq]
  refine (yields_step hnumbers hweeks).bind fun progress hstep => ?_
  cases progress with
  | settled outlook => exact yields_pure outlook
  | searching next =>
    obtain ⟨rfl, hwithin⟩ := ChangeSearch.searching_of_step hstep
    rcases ChangeSearch.step_cases hstep with ⟨_, heq, _⟩ | ⟨_, _, ⟨_, anchor, hanchor, _⟩, _⟩
    · cases heq
    · have hnext := ChangeSearch.weeks_le_of_anchor? hanchor
      exact yields_finish hnumbers (by omega)
termination_by s.env.horizon + 1 - weeks

/-- Searches from an instant on. -/
def run (rules : List Rule) (env : Setting) (origin : Instant) (direction : Direction) :
    ExceptT HoursError Machine Outlook := do
  let timetable ← around rules env origin.date
  let standing ← standingFrom timetable origin
  finish { rules, env, direction, origin, standing } 0

theorem yields_run {env : Setting} (hnumbers : ∀ d, env.weekOf d < 0x100000000) (rules : List Rule)
    (origin : Instant) (direction : Direction) :
    Yields (run rules env origin direction) (ChangeSearch.run rules env origin direction) := by
  refine (yields_around hnumbers rules origin.date).bind fun t _ => ?_
  refine .step (standingFrom_eq t origin) ?_
  exact yields_finish hnumbers (by decide)

/-! ## The hours of a place -/

/-- The timetable around a date. -/
def timetable (h : Hours) (d : Date) : ExceptT HoursError Machine Timetable := around h.rules h.env d

/-- What holds at an instant, by the timetable of its date. -/
def standing (h : Hours) (i : Instant) : ExceptT HoursError Machine Standing := do
  let t ← timetable h i.date
  standingAt t i

/-- The next change of status after an instant. -/
def nextChange (h : Hours) (i : Instant) : ExceptT HoursError Machine Outlook :=
  run h.rules h.env i .forward

/-- The change at which the status of an instant began. -/
def previousChange (h : Hours) (i : Instant) : ExceptT HoursError Machine Outlook :=
  run h.rules h.env i .backward

/--
**No question breaks a machine.**

Whatever the rules, the setting, the date and the instant, the questions come to the results
and the errors that they come to without bounds on numbers. Week numbers are all that has to
fit, since others than the calendar give them.
-/
theorem yields_hours (h : Hours) (hnumbers : ∀ d, h.env.weekOf d < UInt32.size) :
    (∀ d, (timetable h d).run = .ok (h.timetable d)) ∧
    (∀ i, (standing h i).run = .ok (h.standing i)) ∧
    (∀ d t, h.timetable d = .ok t → segments t = .ok t.segments ∧ joined t = .ok t.joined) ∧
    (∀ i, (nextChange h i).run = .ok (h.nextChange i)) ∧
    (∀ i, (previousChange h i).run = .ok (h.previousChange i)) := by
  refine ⟨fun d => ?_, fun i => ?_, fun d t _ => ?_, fun i => ?_, fun i => ?_⟩
  · exact yields_around hnumbers h.rules d
  · refine (yields_around hnumbers h.rules i.date).bind fun t _ => ?_
    exact yields_liftM (standingAt_eq t i)
  · exact ⟨segments_eq t, joined_eq t⟩
  · exact yields_run hnumbers h.rules i .forward
  · exact yields_run hnumbers h.rules i .backward

/-- A rule with numbers as large as they can be, in weeks whose number is no smaller. -/
def extremes : Hours where
  rules := [{
    id := ⟨"extremes"⟩
    years := [{ start := -2147483648, stop? := some 2147483647 }]
    weeks := [⟨4294967295, 4294967294, 4294967295⟩]
    dates := [.between (.ofYmd 262142 1 0) ((DatePoint.ofYmd 262142 11 4294967295).laterBy 31)]
    times := [.between (.solar .dusk 2147483647) (.fixed 4294967295), .single 4294967295] }]
  env := { week := fun _ _ => 4294967295, horizon := 4294967295 }

/-- The first second of the last Monday that the calendar has a whole week for. -/
def lastMonday : Instant := .midnight ⟨95745757, by decide, by decide⟩

theorem yields_hours_extremes : (∀ d, extremes.env.weekOf d < UInt32.size) ∧
    (standing extremes lastMonday).run = .ok (.ok ⟨.opened, none⟩) := by
  have hnumbers : ∀ d, extremes.env.weekOf d < UInt32.size := fun _ =>
    (by decide : 4294967295 < UInt32.size)
  have hstanding : extremes.standing lastMonday = .ok ⟨.opened, none⟩ := by decide +kernel
  exact ⟨hnumbers,
    ((yields_hours extremes hnumbers).2.1 lastMonday).trans (congrArg Except.ok hstanding)⟩

end OpeningHours.Machine
