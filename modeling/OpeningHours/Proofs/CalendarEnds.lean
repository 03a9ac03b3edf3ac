import OpeningHours.Proofs.Change
import OpeningHours.Proofs.RuleFaults

/-!
# Searches that come to an end of the calendar

A search that steps off the calendar is settled: the status lasts as far as it could see. But the
calendar does not end with a whole week. Its last day is a Monday, and its first four days are a
Thursday to a Sunday; the weeks of these days cannot be planned, and there is no timetable for
them.

A search looks every week up at the weekday it started on. From most weekdays it steps over the
days at the end. From a Monday forward, and from a Thursday, Friday, Saturday or Sunday back, it
steps onto one of them before it leaves the calendar, and where nothing has settled it until then
it fails. By rules that make sense from every month it fails in no other way.
-/

namespace OpeningHours

/-! ## Weeks that the calendar has in part only -/

namespace Date

/-- Monday, 5 January of the first year, with which the first whole week starts. -/
def firstMonday : Date := ⟨-95745760, by decide, by decide⟩

/-- Monday, 31 December of the last year, with which the calendar ends. -/
def lastDay : Date := ⟨95745764, by decide, by decide⟩

/-- The calendar has the week of the date, the day before it and the day after it. -/
def HasWeek (d : Date) : Prop := ∃ w : Week, d.monday? = some w.first

variable {d : Date}

theorem hasWeek_iff : d.HasWeek ↔ firstMonday ≤ d ∧ d < lastDay := by
  simp only [HasWeek, monday?_eq_some_iff, le_iff, lt_iff, firstMonday, lastDay]
  unfold mondayNumber
  constructor
  · intro hgiven
    obtain ⟨w, hw⟩ := hgiven
    have hfirst := w.eve_ge
    have hlast := w.next_le
    omega
  · intro hgiven
    obtain ⟨hfirst, hlast⟩ := hgiven
    exact ⟨⟨⟨d.number - (d.number + 5) % 7, by omega, by omega⟩, by dsimp only; omega,
      by dsimp only; omega⟩, rfl⟩

end Date

namespace Timetable

variable {rules : List Rule} {env : Setting} {d : Date} {t : Timetable}

theorem hasWeek_of_around (h : around rules env d = .ok t) : d.HasWeek :=
  ⟨t.week, (around_eq_ok_iff.1 h).1⟩

/-- In a week that the calendar has in part only, every date names itself in the error. -/
theorem around_eq_error_of_not_hasWeek (rules : List Rule) (env : Setting) (h : ¬d.HasWeek) :
    around rules env d = .error (.illegalDates (.weekOutOfCalendar d) none) := by
  unfold around
  cases hmonday : d.monday? with
  | none => rfl
  | some monday =>
      -- the week has its Monday, so it is the one that the calendar ends in
      have hnone : Week.startingOn? monday = none := by
        cases hw : Week.startingOn? monday with
        | none => rfl
        | some w => exact absurd ⟨w, Week.startingOn?_eq_some_iff.1 hw ▸ hmonday⟩ h
      have heq : monday = d := by
        have hfirst := monday.first_le
        have hlast := d.le_last
        rw [Date.monday?_eq_some_iff, Date.mondayNumber] at hmonday
        simp only [Date.hasWeek_iff, Date.le_iff, Date.lt_iff, Date.firstMonday, Date.lastDay] at h
        exact Date.ext (by omega)
      have hmake : WeekPlan.make rules monday d.yearMonth env =
          .error (.illegalDates (.weekOutOfCalendar monday) none) := by
        unfold WeekPlan.make
        rw [hnone]
      rw [heq] at hmake
      exact bind_eq_error_iff.2 (Or.inl (heq ▸ hmake))

/-- By rules that make sense from every month, all whole weeks have their timetables. -/
theorem exists_around_of_hasWeek (env : Setting) (hsound : ∀ r ∈ rules, ∀ seen, ¬r.IsFaulty seen)
    (h : d.HasWeek) : ∃ t, around rules env d = .ok t := by
  obtain ⟨w, hw⟩ := h
  refine exists_around_eq_ok_iff.2 ⟨w, hw, fun seen _ => ?_⟩
  exact exists_mapM_ofRule_iff.2 fun r hr => hsound r hr seen

end Timetable

/-- A rule without ranges of dates makes sense from every month, if its ranges of years do. -/
theorem Rule.not_isFaulty {r : Rule} (hdates : r.dates = [])
    (hyears : ∀ years ∈ r.years, years.IsLegal) (seen : YearMonth) : ¬r.IsFaulty seen := by
  intro hfaulty
  rcases hfaulty with ⟨years, hmem, hback⟩ | ⟨dates, hmem, _⟩
  · exact YearRange.isLegal_iff.1 (hyears years hmem) hback
  · rw [hdates] at hmem
    exact List.not_mem_nil hmem

/-! ## The day that a search strands at -/

namespace ChangeSearch

variable {s : ChangeSearch} {k n : Nat} {t : Timetable} {d : Date} {e : HoursError}

/-- The instant lies on the side of the origin that the search looks at. -/
def Ahead (s : ChangeSearch) (i : Instant) : Prop :=
  match s.direction with
  | .forward => s.origin ≤ i
  | .backward => i ≤ s.origin

/-- Within its horizon a search steps onto a day whose week it cannot plan, and nothing settles it
on the way. -/
structure StrandsAt (s : ChangeSearch) (d : Date) : Prop where
  within : ∃ k ≤ s.env.horizon, s.anchor? k = some d
  cut : ¬d.HasWeek
  lasting : ∀ i, s.Ahead i → i.date.HasWeek → s.hours.HasStatus i s.standing.status

theorem Rooted.hasWeek (hs : s.Rooted) : s.origin.date.HasWeek := by
  obtain ⟨t, ht, _⟩ := bind_eq_ok_iff.1 hs
  exact Timetable.hasWeek_of_around ht

/-- A search forward strands at the last day only, and only from a Monday. -/
theorem eq_lastDay_of_forward (hs : s.Rooted) (hdir : s.direction = .forward)
    (hanchor : s.anchor? n = some d) (hcut : ¬d.HasWeek) :
    d = Date.lastDay ∧ s.origin.date.weekday = .mon := by
  have horigin := Date.hasWeek_iff.1 hs.hasWeek
  have hlast := d.le_last
  rw [anchor?_forward hdir, Date.add?_eq_some_iff] at hanchor
  rw [Date.hasWeek_iff] at hcut
  simp only [Date.le_iff, Date.lt_iff, Date.firstMonday, Date.lastDay] at horigin hcut
  refine ⟨Date.ext ?_, ?_⟩
  · dsimp only [Date.lastDay]
    omega
  · rw [Date.weekday_eq_iff]
    dsimp only [Weekday.index]
    omega

/-- A search back strands before the first whole week only. -/
theorem lt_firstMonday_of_backward (hs : s.Rooted) (hdir : s.direction = .backward)
    (hanchor : s.anchor? n = some d) (hcut : ¬d.HasWeek) : d < Date.firstMonday := by
  have horigin := Date.hasWeek_iff.1 hs.hasWeek
  rw [anchor?_backward hdir, Date.add?_eq_some_iff] at hanchor
  rw [Date.hasWeek_iff] at hcut
  simp only [Date.le_iff, Date.lt_iff, Date.firstMonday, Date.lastDay] at horigin hcut ⊢
  omega

/-- Short of a day that it strands at, a search looks at whole weeks. -/
theorem hasWeek_of_anchor? (hs : s.Rooted) (hn : s.anchor? n = some d) (hcut : ¬d.HasWeek)
    (hk : k < n) {nearer : Date} (hnearer : s.anchor? k = some nearer) : nearer.HasWeek := by
  have horigin := Date.hasWeek_iff.1 hs.hasWeek
  have hfirst := d.first_le
  rw [Date.hasWeek_iff]
  cases hdir : s.direction with
  | forward =>
      obtain ⟨rfl, _⟩ := eq_lastDay_of_forward hs hdir hn hcut
      rw [anchor?_forward hdir, Date.add?_eq_some_iff] at hn hnearer
      simp only [Date.le_iff, Date.lt_iff, Date.firstMonday, Date.lastDay] at horigin hn ⊢
      omega
  | backward =>
      rw [anchor?_backward hdir, Date.add?_eq_some_iff] at hn hnearer
      simp only [Date.le_iff, Date.lt_iff, Date.firstMonday, Date.lastDay] at horigin ⊢
      omega

/-- When all weeks before the day are clear, the status of the origin lasts through all of them. -/
theorem lasting_of_clear (hs : s.Rooted) (hn : s.anchor? n = some d) (hcut : ¬d.HasWeek)
    (hclear : ∀ m < n, s.Clear m) (i : Instant) (hi : s.Ahead i) (hweek : i.date.HasWeek) :
    s.hours.HasStatus i s.standing.status := by
  have hbounds := Date.hasWeek_iff.1 hweek
  simp only [Date.le_iff, Date.lt_iff, Date.firstMonday, Date.lastDay] at hbounds
  unfold Ahead at hi
  cases hdir : s.direction with
  | forward =>
      rw [hdir] at hi
      obtain ⟨rfl, _⟩ := eq_lastDay_of_forward hs hdir hn hcut
      rw [anchor?_forward hdir, Date.add?_eq_some_iff] at hn
      refine hasStatus_of_clear_forward hdir hs hclear hi ?_
      unfold Date.mondayNumber
      simp only [Date.lastDay] at hn
      omega
  | backward =>
      rw [hdir] at hi
      have hlt := lt_firstMonday_of_backward hs hdir hn hcut
      have hfirst := d.first_le
      rw [anchor?_backward hdir, Date.add?_eq_some_iff] at hn
      refine hasStatus_of_clear_backward hdir hs hclear hi ?_
      unfold Date.mondayNumber
      simp only [Date.lt_iff, Date.firstMonday] at hlt
      omega

/-- Where the status of the origin lasts, no week has a change. -/
theorem LooksAt.changeIn?_eq_none (h : s.LooksAt k t) (hs : s.Rooted)
    (hlasting : ∀ i, s.Ahead i → i.date.HasWeek → s.hours.HasStatus i s.standing.status) :
    s.changeIn? t.segments = none := by
  -- a change shows an instant on the way that has another status
  have habsurd : ∀ i status comment?, s.Ahead i → s.hours.standingFrom i = .ok ⟨status, comment?⟩ →
      status ≠ s.standing.status → False := by
    intro i status comment? hi hstanding hdiffers
    obtain ⟨_, ht, _⟩ := bind_eq_ok_iff.1 hstanding
    obtain ⟨_, hsame⟩ := hlasting i hi (Timetable.hasWeek_of_around ht)
    rw [hstanding] at hsame
    cases hsame
    exact hdiffers rfl
  unfold changeIn?
  cases hdir : s.direction with
  | forward =>
      rw [Option.eq_none_iff_forall_ne_some]
      intro o hsome
      obtain ⟨moment, status, comment?, _, hafter, hdiffers, _, hstanding, _⟩ :=
        h.change_forward hs hsome
      refine habsurd moment status comment? ?_ hstanding hdiffers
      unfold Ahead
      rw [hdir]
      exact le_of_lt hafter
  | backward =>
      rw [Option.eq_none_iff_forall_ne_some]
      intro o hsome
      obtain ⟨moment, status, comment?, _, hle, hdiffers, _, ⟨j, hj, hstanding⟩, _⟩ :=
        h.change_backward hs hsome
      refine habsurd j status comment? ?_ hstanding hdiffers
      unfold Ahead
      rw [hdir]
      exact le_trans (Instant.le_iff.2 (by omega)) hle

/-- By rules that make sense from every month, a search fails only where it strands. -/
theorem finish_eq_error_iff_strandsAt (hsound : ∀ r ∈ s.rules, ∀ seen, ¬r.IsFaulty seen)
    (hs : s.Rooted) : s.finish 0 = .error e ↔
      ∃ d, s.StrandsAt d ∧ e = .illegalDates (.weekOutOfCalendar d) none := by
  rw [finish_eq_error_iff]
  constructor
  · intro hfail
    obtain ⟨n, _, hclear, hstep⟩ := hfail
    obtain ⟨hwithin, d, hanchor, hfault⟩ := step_eq_error_iff.1 hstep
    have hcut : ¬d.HasWeek := by
      intro hweek
      obtain ⟨t, ht⟩ := Timetable.exists_around_of_hasWeek s.env hsound hweek
      rw [ht] at hfault
      cases hfault
    rw [Timetable.around_eq_error_of_not_hasWeek s.rules s.env hcut] at hfault
    cases hfault
    exact ⟨d, ⟨⟨n, hwithin, hanchor⟩, hcut,
      lasting_of_clear hs hanchor hcut fun m hm => hclear m (Nat.zero_le m) hm⟩, rfl⟩
  · intro hstrands
    obtain ⟨d, ⟨⟨n, hwithin, hanchor⟩, hcut, hlasting⟩, rfl⟩ := hstrands
    refine ⟨n, Nat.zero_le n, fun m _ hm => ?_, step_eq_error_iff.2 ⟨hwithin, d, hanchor,
      Timetable.around_eq_error_of_not_hasWeek s.rules s.env hcut⟩⟩
    obtain ⟨nearer, hnearer⟩ := exists_anchor?_of_le hanchor (Nat.le_of_lt hm)
    obtain ⟨t, ht⟩ := Timetable.exists_around_of_hasWeek s.env hsound
      (hasWeek_of_anchor? hs hanchor hcut hm hnearer)
    have hlooks : s.LooksAt m t := ⟨Nat.le_trans (Nat.le_of_lt hm) hwithin, nearer, hnearer, ht⟩
    exact ⟨t, hlooks, hlooks.changeIn?_eq_none hs hlasting⟩

section Run

variable {h : Hours} {origin : Instant} {now : Standing}
  (hsound : ∀ r ∈ h.rules, ∀ seen, ¬r.IsFaulty seen) (hnow : h.standingFrom origin = .ok now)
  (direction : Direction)

include hsound hnow

theorem run_eq_error_iff (e : HoursError) :
    run h.rules h.env origin direction = .error e ↔
      ∃ d, StrandsAt ⟨h.rules, h.env, direction, origin, now⟩ d ∧
        e = .illegalDates (.weekOutOfCalendar d) none := by
  rw [run_eq, hnow]
  exact finish_eq_error_iff_strandsAt hsound hnow

/-- A search that does not strand comes to a change or sees the status last. -/
theorem exists_run_eq_ok_iff :
    (∃ o, run h.rules h.env origin direction = .ok o) ↔
      ¬∃ d, StrandsAt ⟨h.rules, h.env, direction, origin, now⟩ d := by
  rw [← not_iff_not, ← exists_eq_error_iff, not_not]
  constructor
  · intro hfails
    obtain ⟨e, he⟩ := hfails
    obtain ⟨d, hstrands, _⟩ := (run_eq_error_iff hsound hnow direction e).1 he
    exact ⟨d, hstrands⟩
  · intro hgiven
    obtain ⟨d, hstrands⟩ := hgiven
    exact ⟨_, (run_eq_error_iff hsound hnow direction _).2 ⟨d, hstrands, rfl⟩⟩

end Run

/-- A search that goes on from its own week and fails at the next one. -/
theorem run_eq_error_of_steps {h : Hours} {origin : Instant} {direction : Direction} {now : Standing}
    (hnow : h.standingFrom origin = .ok now)
    (hfirst : step ⟨h.rules, h.env, direction, origin, now⟩ 0 = .ok (.searching 1))
    (hsecond : step ⟨h.rules, h.env, direction, origin, now⟩ 1 = .error e) :
    run h.rules h.env origin direction = .error e := by
  rw [run_eq, hnow]
  exact (finish_of_searching hfirst).trans (finish_of_error hsecond)

theorem strandsAt_forward_iff (hs : s.Rooted) (hdir : s.direction = .forward) :
    s.StrandsAt d ↔ d = Date.lastDay ∧ s.origin.date.weekday = .mon ∧
      Date.lastDay.number ≤ s.origin.date.number + 7 * s.env.horizon ∧
      ∀ i, s.origin ≤ i → i.date < Date.lastDay → s.hours.HasStatus i s.standing.status := by
  have hfirst := (Date.hasWeek_iff.1 hs.hasWeek).1
  have hlast := s.origin.date.le_last
  constructor
  · intro hstrands
    obtain ⟨⟨k, hk, hanchor⟩, hcut, hlasting⟩ := hstrands
    obtain ⟨rfl, hmonday⟩ := eq_lastDay_of_forward hs hdir hanchor hcut
    rw [anchor?_forward hdir, Date.add?_eq_some_iff] at hanchor
    refine ⟨rfl, hmonday, by omega, fun i hi hlt => hlasting i ?_ ?_⟩
    · unfold Ahead
      rwa [hdir]
    · have hle := Instant.date_le hi
      rw [Date.le_iff] at hle hfirst
      exact Date.hasWeek_iff.2 ⟨Date.le_iff.2 (le_trans hfirst hle), hlt⟩
  · intro hgiven
    obtain ⟨rfl, hmonday, hnear, hlasting⟩ := hgiven
    rw [Date.weekday_eq_iff] at hmonday
    simp only [Weekday.index, Date.lastDay] at hmonday hnear
    refine ⟨⟨((Date.lastDay.number - s.origin.date.number) / 7).toNat, ?_, ?_⟩, ?_, ?_⟩
    · dsimp only [Date.lastDay]
      omega
    · rw [anchor?_forward hdir, Date.add?_eq_some_iff]
      dsimp only [Date.lastDay, Fin.val_zero] at hmonday ⊢
      omega
    · rw [Date.hasWeek_iff, Date.lt_iff]
      exact fun hweek => lt_irrefl _ hweek.2
    · intro i hi hweek
      unfold Ahead at hi
      rw [hdir] at hi
      exact hlasting i hi (Date.hasWeek_iff.1 hweek).2

theorem strandsAt_backward_iff (hs : s.Rooted) (hdir : s.direction = .backward) :
    s.StrandsAt d ↔ d < Date.firstMonday ∧ d.weekday = s.origin.date.weekday ∧
      s.origin.date.number ≤ d.number + 7 * s.env.horizon ∧
      ∀ i, i ≤ s.origin → Date.firstMonday ≤ i.date → s.hours.HasStatus i s.standing.status := by
  have horigin := Date.hasWeek_iff.1 hs.hasWeek
  constructor
  · intro hstrands
    obtain ⟨⟨k, hk, hanchor⟩, hcut, hlasting⟩ := hstrands
    have hlt := lt_firstMonday_of_backward hs hdir hanchor hcut
    rw [anchor?_backward hdir, Date.add?_eq_some_iff] at hanchor
    refine ⟨hlt, ?_, by omega, fun i hi hle => hlasting i ?_ ?_⟩
    · rw [Date.weekday_eq_iff, s.origin.date.weekday_index]
      omega
    · unfold Ahead
      rwa [hdir]
    · have hlater := Instant.date_le hi
      rw [Date.le_iff] at hlater
      exact Date.hasWeek_iff.2 ⟨hle, Date.lt_iff.2 (lt_of_le_of_lt hlater horigin.2)⟩
  · intro hgiven
    obtain ⟨hlt, hweekday, hnear, hlasting⟩ := hgiven
    rw [Date.weekday_eq_iff, s.origin.date.weekday_index] at hweekday
    refine ⟨⟨((s.origin.date.number - d.number) / 7).toNat, by omega, ?_⟩, ?_, ?_⟩
    · rw [Date.lt_iff] at hlt
      rw [Date.le_iff] at horigin
      rw [anchor?_backward hdir, Date.add?_eq_some_iff]
      omega
    · rw [Date.hasWeek_iff, Date.le_iff]
      exact fun hweek => not_le_of_gt (Date.lt_iff.1 hlt) hweek.1
    · intro i hi hweek
      unfold Ahead at hi
      rw [hdir] at hi
      exact hlasting i hi (Date.hasWeek_iff.1 hweek).1

end ChangeSearch

namespace Hours

open ChangeSearch

variable {h : Hours} {origin : Instant}

/--
**A search fails only where it strands at an end of the calendar.**

Let the rules have no ranges of dates and only ranges of years that do not end before they start,
and let the date of an instant have a timetable. Then the searches from there find a change or the
status they saw last, also where they leave the calendar, with one exception at each end. A search
forward fails when it starts on a Monday, its horizon reaches the last day, and one status lasts
up to there; the error names the last day. A search back fails when it starts on the weekday of
one of the days before the first whole week, its horizon reaches that day, and one status has
lasted since the first whole week began; the error names that day.
-/
theorem exists_change_iff (hdates : ∀ r ∈ h.rules, r.dates = [])
    (hyears : ∀ r ∈ h.rules, ∀ years ∈ r.years, years.IsLegal)
    (ht : ∃ t, h.timetable origin.date = .ok t) :
    ∃ now, h.standingFrom origin = .ok now ∧
      ((∃ o, h.nextChange origin = .ok o) ↔
        ¬(origin.date.weekday = .mon ∧
          Date.lastDay.number ≤ origin.date.number + 7 * h.env.horizon ∧
          ∀ i, origin ≤ i → i.date < Date.lastDay → h.HasStatus i now.status)) ∧
      (∀ e, h.nextChange origin = .error e →
        e = .illegalDates (.weekOutOfCalendar Date.lastDay) none) ∧
      ((∃ o, h.previousChange origin = .ok o) ↔
        ¬∃ d, d < Date.firstMonday ∧ d.weekday = origin.date.weekday ∧
          origin.date.number ≤ d.number + 7 * h.env.horizon ∧
          ∀ i, i ≤ origin → Date.firstMonday ≤ i.date → h.HasStatus i now.status) ∧
      ∀ e, h.previousChange origin = .error e →
        ∃ d, d < Date.firstMonday ∧ d.weekday = origin.date.weekday ∧
          e = .illegalDates (.weekOutOfCalendar d) none := by
  obtain ⟨t, ht⟩ := ht
  have hnow : h.standingFrom origin = .ok (t.standingFrom origin) := bind_eq_ok_iff.2 ⟨t, ht, rfl⟩
  have hsound : ∀ r ∈ h.rules, ∀ seen, ¬r.IsFaulty seen := fun r hr =>
    Rule.not_isFaulty (hdates r hr) (hyears r hr)
  have hrooted : ∀ direction, Rooted ⟨h.rules, h.env, direction, origin, t.standingFrom origin⟩ :=
    fun _ => hnow
  refine ⟨t.standingFrom origin, hnow, ?_, fun e he => ?_, ?_, fun e he => ?_⟩
  · refine (exists_run_eq_ok_iff hsound hnow .forward).trans (not_congr ?_)
    constructor
    · intro hgiven
      obtain ⟨d, hstrands⟩ := hgiven
      exact ((strandsAt_forward_iff (hrooted .forward) rfl).1 hstrands).2
    · intro hstrands
      exact ⟨Date.lastDay, (strandsAt_forward_iff (hrooted .forward) rfl).2 ⟨rfl, hstrands⟩⟩
  · obtain ⟨d, hstrands, rfl⟩ := (run_eq_error_iff hsound hnow .forward e).1 he
    obtain ⟨rfl, _⟩ := (strandsAt_forward_iff (hrooted .forward) rfl).1 hstrands
    rfl
  · refine (exists_run_eq_ok_iff hsound hnow .backward).trans (not_congr (exists_congr fun d => ?_))
    exact strandsAt_backward_iff (hrooted .backward) rfl
  · obtain ⟨d, hstrands, rfl⟩ := (run_eq_error_iff hsound hnow .backward e).1 he
    obtain ⟨hlt, hweekday, _⟩ := (strandsAt_backward_iff (hrooted .backward) rfl).1 hstrands
    exact ⟨d, hlt, hweekday, rfl⟩

/-- A place that never closes. -/
def alwaysOpen : Hours := { rules := [{ id := ⟨"always"⟩ }] }

theorem exists_around_alwaysOpen (env : Setting) {d : Date} (hweek : d.HasWeek) :
    ∃ t, Timetable.around alwaysOpen.rules env d = .ok t := by
  refine Timetable.exists_around_of_hasWeek env (fun r hr => ?_) hweek
  obtain rfl := List.mem_singleton.1 hr
  exact Rule.not_isFaulty rfl (List.forall_mem_nil _)

/-- Monday, 24 December of the last year, 12:00. -/
def mondayAtEnd : Instant := ⟨⟨Date.lastDay.number - 7, by decide, by decide⟩, 12 * 3600, by decide⟩

/-- Tuesday, 25 December of the last year, 12:00. -/
def tuesdayAtEnd : Instant := ⟨⟨Date.lastDay.number - 6, by decide, by decide⟩, 12 * 3600, by decide⟩

/-- Thursday, 8 January of the first year, 12:00. -/
def thursdayAtStart : Instant :=
  ⟨⟨Date.firstMonday.number + 3, by decide, by decide⟩, 12 * 3600, by decide⟩

/-- From the Tuesday of the last whole week a search steps off the calendar, and does not fail. -/
theorem exists_change_iff_tuesdayAtEnd :
    (∃ t, alwaysOpen.timetable tuesdayAtEnd.date = .ok t) ∧
      ∃ o, alwaysOpen.nextChange tuesdayAtEnd = .ok o := by
  have hdates : ∀ r ∈ alwaysOpen.rules, r.dates = [] := by decide
  have hyears : ∀ r ∈ alwaysOpen.rules, ∀ years ∈ r.years, years.IsLegal := by decide
  have ht : ∃ t, alwaysOpen.timetable tuesdayAtEnd.date = .ok t :=
    exists_around_alwaysOpen alwaysOpen.env (Date.hasWeek_iff.2 (by decide))
  obtain ⟨_, _, hnext, _⟩ := exists_change_iff hdates hyears ht
  exact ⟨ht, hnext.2 fun hstrands => absurd hstrands.1 (by decide)⟩

/--
From the Monday of that week the search steps onto the last day of the calendar and fails, and so
does a search back from a Thursday that steps onto the first day. Both start in a week that can be
planned, and nothing is wrong with the rule.
-/
theorem change_stranded :
    (∀ r ∈ alwaysOpen.rules, r.dates = [] ∧ r.years = []) ∧
      (∃ t, alwaysOpen.timetable mondayAtEnd.date = .ok t) ∧
      alwaysOpen.nextChange mondayAtEnd =
        .error (.illegalDates (.weekOutOfCalendar Date.lastDay) none) ∧
      (∃ t, alwaysOpen.timetable thursdayAtStart.date = .ok t) ∧
      alwaysOpen.previousChange thursdayAtStart =
        .error (.illegalDates (.weekOutOfCalendar ⟨-95745764, by decide, by decide⟩) none) := by
  refine ⟨by decide, exists_around_alwaysOpen alwaysOpen.env (Date.hasWeek_iff.2 (by decide)), ?_,
    exists_around_alwaysOpen alwaysOpen.env (Date.hasWeek_iff.2 (by decide)), ?_⟩
  · have hnow : alwaysOpen.standingFrom mondayAtEnd = .ok ⟨.opened, none⟩ := by decide +kernel
    exact run_eq_error_of_steps hnow (by decide +kernel) (by decide +kernel)
  · have hnow : alwaysOpen.standingFrom thursdayAtStart = .ok ⟨.opened, none⟩ := by decide +kernel
    exact run_eq_error_of_steps hnow (by decide +kernel) (by decide +kernel)

end Hours

end OpeningHours
