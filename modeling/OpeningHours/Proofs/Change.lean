import OpeningHours.Proofs.Search

/-!
# The next change is the first one, and the previous change is the last

A search forward finds the first instant after its origin from which another status holds, or
it has seen that of the origin last through all the weeks it could look at. A search back
finds the instant at which the status of the origin began, or the same.

The weeks are compared with what holds at the origin by the timetable of its own date, while
each of them is planned around a date of its own. What makes the two agree is that every day
is read in its own month; and weeks seven days apart leave no instant out.
-/

namespace OpeningHours

/-- Between two instants there is one for every second. -/
theorem Instant.exists_seconds_eq {a b : Instant} {n : Int} (h : a.seconds ≤ n)
    (h' : n ≤ b.seconds) : ∃ i : Instant, i.seconds = n := by
  have h₁ := a.date.first_le
  have h₂ := b.date.le_last
  have h₃ := b.second_lt
  unfold seconds at h h'
  refine ⟨⟨⟨n / 86400, by omega, by omega⟩, (n % 86400).toNat, by omega⟩, ?_⟩
  simp only [seconds]
  omega

namespace ChangeSearch

open Segment

variable {s : ChangeSearch} {k n : Nat} {o : Outlook} {t : Timetable} {i : Instant}

/-- The hours that a search looks at. -/
def hours (s : ChangeSearch) : Hours := ⟨s.rules, s.env⟩

/-- The search knows what holds from its origin on. -/
def Rooted (s : ChangeSearch) : Prop := s.hours.standingFrom s.origin = .ok s.standing

/-! ## The weeks a search looks at -/

theorem LooksAt.timetable (h : s.LooksAt k t) :
    ∃ anchor, s.anchor? k = some anchor ∧ anchor.monday? = some t.week.first ∧
      s.hours.timetable anchor = .ok t := by
  obtain ⟨_, anchor, hanchor, ht⟩ := h
  exact ⟨anchor, hanchor, (Timetable.around_eq_ok_iff.1 ht).1, ht⟩

theorem LooksAt.traces (h : s.LooksAt k t) :
    Traces t.standingFrom (.midnight (t.week.date 0)) t.segments (.midnight (t.week.date 7)) := by
  obtain ⟨_, _, _, ht⟩ := h.timetable
  exact Timetable.traces_segments ht

theorem LooksAt.monday?_iff (h : s.LooksAt k t) :
    i.date.monday? = some t.week.first ↔
      Instant.midnight (t.week.date 0) ≤ i ∧ i < Instant.midnight (t.week.date 7) := by
  obtain ⟨_, _, hmonday, _⟩ := h.timetable
  exact Week.monday?_eq_some_iff_between hmonday

theorem LooksAt.standingFrom (h : s.LooksAt k t) (hi : i.date.monday? = some t.week.first) :
    s.hours.standingFrom i = .ok (t.standingFrom i) := by
  obtain ⟨_, _, _, ht⟩ := h.timetable
  exact Hours.standingFrom_eq ht hi

theorem LooksAt.hasStatus (h : s.LooksAt k t) (hi : i.date.monday? = some t.week.first)
    {status : Status} (hs : (t.standingFrom i).status = status) : s.hours.HasStatus i status := by
  obtain ⟨_, _, _, ht⟩ := h.timetable
  exact Hours.hasStatus_of_timetable ht hi hs

/-- If the origin lies in the week, its timetable says there what the search started from. -/
theorem LooksAt.status_origin (h : s.LooksAt k t) (hs : s.Rooted)
    (hle : Instant.midnight (t.week.date 0) ≤ s.origin)
    (hlt : s.origin < Instant.midnight (t.week.date 7)) :
    (t.standingFrom s.origin).status = s.standing.status := by
  have heq := h.standingFrom (h.monday?_iff.2 ⟨hle, hlt⟩)
  rw [hs] at heq
  rw [Except.ok.inj heq]

/-- A search that ends without a change has gone on from every week it could look at. -/
theorem clear_of_unreached (hclear : ∀ m < n, s.Clear m)
    (hend : s.env.horizon < n ∨ s.anchor? n = none) (hk : k ≤ s.env.horizon) {anchor : Date}
    (hanchor : s.anchor? k = some anchor) : s.Clear k := by
  refine hclear k (Nat.lt_of_not_le fun hle => ?_)
  rcases hend with hpast | hnone
  · omega
  · obtain ⟨nearer, hnearer⟩ := exists_anchor?_of_le hanchor hle
    rw [hnone] at hnearer
    cases hnearer

/-- The instants of a week that is clear are those around the date it is looked up at. -/
theorem Clear.exists_looksAt (h : s.Clear k) {anchor : Date} (hanchor : s.anchor? k = some anchor) :
    ∃ t, s.LooksAt k t ∧ anchor.monday? = some t.week.first ∧ s.changeIn? t.segments = none := by
  obtain ⟨t, hlooks, hnone⟩ := h
  obtain ⟨anchor', hanchor', hmonday, _⟩ := hlooks.timetable
  rw [hanchor] at hanchor'
  cases hanchor'
  exact ⟨t, hlooks, hmonday, hnone⟩

/-! ## Forward -/

theorem LooksAt.first_forward (hdir : s.direction = .forward) (h : s.LooksAt k t) :
    t.week.first.number = s.origin.date.mondayNumber + 7 * k := by
  obtain ⟨anchor, hanchor, hmonday, _⟩ := h.timetable
  rw [anchor?_forward hdir, Date.add?_eq_some_iff] at hanchor
  rw [Date.monday?_eq_some_iff.1 hmonday, Date.mondayNumber_of_weeks hanchor]

theorem LooksAt.hasStatus_forward (h : s.LooksAt k t) (hs : s.Rooted)
    (hnone : s.firstAfter? t.segments = none) (hi : i.date.monday? = some t.week.first)
    (hafter : s.origin ≤ i) : s.hours.HasStatus i s.standing.status := by
  obtain ⟨hle, hlt⟩ := h.monday?_iff.1 hi
  exact h.hasStatus hi (status_eq_of_forall_after h.traces (h.status_origin hs)
    (firstAfter?_eq_none hnone) hle hlt hafter)

/-- The first later change in a week, and what holds before it. -/
theorem LooksAt.change_forward (h : s.LooksAt k t) (hs : s.Rooted)
    (hsome : s.firstAfter? t.segments = some o) :
    ∃ moment status comment?, o = .changes moment status comment? ∧ s.origin < moment ∧
      status ≠ s.standing.status ∧ moment.date.monday? = some t.week.first ∧
      s.hours.standingFrom moment = .ok ⟨status, comment?⟩ ∧
      ∀ i : Instant, i.date.monday? = some t.week.first → s.origin ≤ i → i < moment →
        s.hours.HasStatus i s.standing.status := by
  obtain ⟨before, g, after, hsplit, ho, hafter, hdiffers, hbefore⟩ := firstAfter?_eq_some hsome
  have htrace := h.traces
  have hg : g ∈ t.segments := by
    rw [hsplit]
    exact List.mem_append_right before List.mem_cons_self
  obtain ⟨hle, hlt, hstop, hsaid⟩ := htrace.of_mem hg
  have hweek : g.start.date.monday? = some t.week.first :=
    h.monday?_iff.2 ⟨hle, lt_of_lt_of_le hlt hstop⟩
  refine ⟨g.start, g.status, g.comment?, ho, hafter, hdiffers, hweek, ?_, ?_⟩
  · rw [h.standingFrom hweek, hsaid g.start (le_refl _) hlt]
    rfl
  · intro i hi horigin hmoment
    rw [hsplit] at htrace
    obtain ⟨m, htrace, hrest⟩ := htrace.of_append
    cases hrest with
    | cons hstart _ _ _ =>
        subst hstart
        refine h.hasStatus hi (status_eq_of_forall_after htrace ?_ hbefore (h.monday?_iff.1 hi).1
          hmoment horigin)
        intro hle' hlt'
        exact h.status_origin hs hle' (lt_of_lt_of_le hlt' (le_of_lt (lt_of_lt_of_le hlt hstop)))

/-- Through the weeks gone on from, the status is that of the origin. -/
theorem hasStatus_of_clear_forward (hdir : s.direction = .forward) (hs : s.Rooted)
    (hclear : ∀ m < n, s.Clear m) (hi : s.origin ≤ i)
    (hn : i.date.number < s.origin.date.mondayNumber + 7 * n) :
    s.hours.HasStatus i s.standing.status := by
  -- the week of the instant, counted from that of the origin
  obtain ⟨m, hm⟩ := Date.exists_mondayNumber_eq (Instant.date_le hi)
  have hmn : m < n := by
    unfold Date.mondayNumber at hm hn
    omega
  obtain ⟨t, hlooks, hnone⟩ := hclear m hmn
  simp only [changeIn?, hdir] at hnone
  refine hlooks.hasStatus_forward hs hnone ?_ hi
  rw [Date.monday?_eq_some_iff, hlooks.first_forward hdir, hm]

/-! ## Back -/

theorem LooksAt.first_backward (hdir : s.direction = .backward) (h : s.LooksAt k t) :
    t.week.first.number + 7 * k = s.origin.date.mondayNumber := by
  obtain ⟨anchor, hanchor, hmonday, _⟩ := h.timetable
  rw [anchor?_backward hdir, Date.add?_eq_some_iff] at hanchor
  rw [Date.monday?_eq_some_iff.1 hmonday]
  exact (Date.mondayNumber_of_weeks (by omega)).symm

theorem LooksAt.hasStatus_backward (h : s.LooksAt k t) (hs : s.Rooted)
    (hnone : s.lastBefore? t.segments = none) (hi : i.date.monday? = some t.week.first)
    (hbefore : i ≤ s.origin) : s.hours.HasStatus i s.standing.status := by
  obtain ⟨hle, hlt⟩ := h.monday?_iff.1 hi
  exact h.hasStatus hi (status_eq_of_forall_before h.traces (h.status_origin hs)
    (lastBefore?_eq_none hnone) hle hlt hbefore)

/-- The last earlier change in a week, what holds a minute before it, and what after it. -/
theorem LooksAt.change_backward (h : s.LooksAt k t) (hs : s.Rooted)
    (hsome : s.lastBefore? t.segments = some o) :
    ∃ moment status comment?, o = .changes moment status comment? ∧ moment ≤ s.origin ∧
      status ≠ s.standing.status ∧ Instant.midnight (t.week.date 0) < moment ∧
      (∃ j : Instant, j.seconds = moment.seconds - 60 ∧
        s.hours.standingFrom j = .ok ⟨status, comment?⟩) ∧
      ∀ i : Instant, i.date.monday? = some t.week.first → moment ≤ i → i ≤ s.origin →
        s.hours.HasStatus i s.standing.status := by
  obtain ⟨before, g, after, hsplit, ho, hbefore, hdiffers, hafter⟩ := lastBefore?_eq_some hsome
  obtain ⟨_, _, _, ht⟩ := h.timetable
  have htrace := h.traces
  have hg : g ∈ t.segments := by
    rw [hsplit]
    exact List.mem_append_right before List.mem_cons_self
  obtain ⟨hle, hlt, hstop, hsaid⟩ := htrace.of_mem hg
  -- were the origin in the segment, its status would not differ
  have hmoment : g.stop ≤ s.origin := by
    refine le_of_not_gt fun horigin => hdiffers ?_
    rw [← h.status_origin hs (le_trans hle (le_of_lt hbefore)) (lt_of_lt_of_le horigin hstop),
      hsaid s.origin (le_of_lt hbefore) horigin]
    rfl
  refine ⟨g.stop, g.status, g.comment?, ho, hmoment, hdiffers, lt_of_le_of_lt hle hlt, ?_, ?_⟩
  · -- the segment starts and stops at whole minutes, so its last minute lies in it
    obtain ⟨hwhole, hwhole'⟩ := Timetable.whole_minutes_of_mem_segments ht hg
    rw [Instant.lt_iff] at hlt
    obtain ⟨j, hj⟩ := Instant.exists_seconds_eq (a := g.start) (b := g.stop)
      (show g.start.seconds ≤ g.stop.seconds - 60 by omega) (by omega)
    have hstart : g.start ≤ j := Instant.le_iff.2 (by omega)
    have hend : j < g.stop := Instant.lt_iff.2 (by omega)
    refine ⟨j, hj, ?_⟩
    rw [h.standingFrom (h.monday?_iff.2 ⟨le_trans hle hstart, lt_of_lt_of_le hend hstop⟩),
      hsaid j hstart hend]
    rfl
  · intro i hi hi' horigin
    rw [hsplit] at htrace
    obtain ⟨m, _, hrest⟩ := htrace.of_append
    cases hrest with
    | cons _ _ _ hrest =>
        refine h.hasStatus hi (status_eq_of_forall_before hrest ?_ hafter hi'
          (h.monday?_iff.1 hi).2 horigin)
        intro hle' hlt'
        exact h.status_origin hs (le_trans (le_trans hle (le_of_lt hlt)) hle') hlt'

theorem hasStatus_of_clear_backward (hdir : s.direction = .backward) (hs : s.Rooted)
    (hclear : ∀ m < n, s.Clear m) (hi : i ≤ s.origin)
    (hn : s.origin.date.mondayNumber + 7 ≤ i.date.number + 7 * n) :
    s.hours.HasStatus i s.standing.status := by
  -- the week of the instant, counted back from that of the origin
  obtain ⟨m, hm⟩ := Date.exists_mondayNumber_eq (Instant.date_le hi)
  have hmn : m < n := by
    unfold Date.mondayNumber at hm hn
    omega
  obtain ⟨t, hlooks, hnone⟩ := hclear m hmn
  simp only [changeIn?, hdir] at hnone
  refine hlooks.hasStatus_backward hs hnone ?_ hi
  have hfirst := hlooks.first_backward hdir
  rw [Date.monday?_eq_some_iff]
  omega

/-! ## The whole search -/

/-- A search that ends was rooted, and was settled after going on from weeks that are clear. -/
theorem exists_settledAt_of_run {h : Hours} {origin : Instant} {direction : Direction}
    (hrun : run h.rules h.env origin direction = .ok o) :
    ∃ now, h.standingFrom origin = .ok now ∧
      Rooted ⟨h.rules, h.env, direction, origin, now⟩ ∧
      ∃ n, (∀ m < n, Clear ⟨h.rules, h.env, direction, origin, now⟩ m) ∧
        SettledAt ⟨h.rules, h.env, direction, origin, now⟩ n o := by
  obtain ⟨now, hnow, hfinish⟩ := run_eq_ok_iff.1 hrun
  obtain ⟨n, hclear, hsettled⟩ := exists_settledAt_of_finish hfinish
  exact ⟨now, hnow, hnow, n, fun m hm => hclear m (Nat.zero_le m) hm, hsettled⟩

end ChangeSearch

namespace Hours

open ChangeSearch

variable {h : Hours} {origin : Instant} {o : Outlook}

/--
**The next change is the first one.**

Where a search forward finds a change, another status holds from then on and that of the
origin holds from every instant before. Where it finds none, the status of the origin lasts
through its week and through all weeks within the horizon and the calendar.
-/
theorem nextChange_first (hrun : h.nextChange origin = .ok o) :
    ∃ now, h.standingFrom origin = .ok now ∧
      match o with
      | .changes moment status comment? =>
          origin < moment ∧ status ≠ now.status ∧
            h.standingFrom moment = .ok ⟨status, comment?⟩ ∧
            ∀ i, origin ≤ i → i < moment → h.HasStatus i now.status
      | .lasts status comment? =>
          now = ⟨status, comment?⟩ ∧
            ∀ k ≤ h.env.horizon, ∀ anchor, origin.date.add? (7 * k) = some anchor →
              ∀ i : Instant, i.date.monday? = anchor.monday? → origin ≤ i →
                h.HasStatus i now.status := by
  obtain ⟨now, hnow, hrooted, n, hclear, hsettled⟩ := exists_settledAt_of_run hrun
  refine ⟨now, hnow, ?_⟩
  rcases hsettled with ⟨rfl, hend⟩ | ⟨t, hlooks, hsome⟩
  · refine ⟨rfl, fun k hk anchor hanchor i hi hafter => ?_⟩
    have hk' := clear_of_unreached hclear hend hk hanchor
    obtain ⟨t, hlooks, hmonday, hnone⟩ := hk'.exists_looksAt hanchor
    exact hlooks.hasStatus_forward hrooted hnone (hi.trans hmonday) hafter
  · obtain ⟨moment, status, comment?, rfl, hafter, hdiffers, hweek, hstanding, hbefore⟩ :=
      hlooks.change_forward hrooted hsome
    refine ⟨hafter, hdiffers, hstanding, fun i hi hmoment => ?_⟩
    rcases lt_or_ge i (Instant.midnight (t.week.date 0)) with hearlier | hwithin
    · refine hasStatus_of_clear_forward rfl hrooted hclear hi ?_
      rw [← not_le, Instant.midnight_le_iff, Date.le_iff] at hearlier
      rw [← hlooks.first_forward rfl]
      simpa [Week.date] using hearlier
    · have hnext := (hlooks.monday?_iff.1 hweek).2
      exact hbefore i (hlooks.monday?_iff.2 ⟨hwithin, lt_trans hmoment hnext⟩) hi hmoment

/-- An office that is open from 09:00 to 17:00 on working days. -/
def office : Hours :=
  { rules := [{ id := ⟨"office"⟩, weekdays := [⟨.mon, .fri⟩], times := [.fixed 540 1020] }] }

/-- Friday, 30 July 2021, 18:00. -/
def fridayEvening : Instant := ⟨⟨738366, by decide, by decide⟩, 64800, by decide⟩

/-- Monday, 2 August 2021, 09:00. -/
def mondayMorning : Instant := ⟨⟨738369, by decide, by decide⟩, 32400, by decide⟩

/-- From Friday evening on, over the end of the month, the office is closed until Monday. -/
theorem nextChange_office :
    office.nextChange fridayEvening = .ok (.changes mondayMorning .opened none) ∧
      office.standingFrom mondayMorning = .ok ⟨.opened, none⟩ ∧
      ∀ i, fridayEvening ≤ i → i < mondayMorning → office.HasStatus i .closed := by
  have hnow : office.standingFrom fridayEvening = .ok .closed := by decide +kernel
  have hweek : step ⟨office.rules, office.env, .forward, fridayEvening, .closed⟩ 0 =
      .ok (.searching 1) := by decide +kernel
  have hnext : step ⟨office.rules, office.env, .forward, fridayEvening, .closed⟩ 1 =
      .ok (.settled (.changes mondayMorning .opened none)) := by decide +kernel
  have hrun : office.nextChange fridayEvening = .ok (.changes mondayMorning .opened none) :=
    run_eq_ok_iff.2 ⟨.closed, hnow, (finish_of_searching hweek).trans (finish_of_settled hnext)⟩
  obtain ⟨now, hnow', _, _, hmorning, hbefore⟩ := nextChange_first hrun
  rw [hnow] at hnow'
  cases hnow'
  exact ⟨hrun, hmorning, hbefore⟩

/--
**The previous change is the last one.**

Where a search back finds a change, another status holds a minute before it and that of the
origin holds from it up to the origin. Where it finds none, the status of the origin has
lasted through its week and through all weeks within the horizon and the calendar.
-/
theorem previousChange_last (hrun : h.previousChange origin = .ok o) :
    ∃ now, h.standingFrom origin = .ok now ∧
      match o with
      | .changes moment status comment? =>
          moment ≤ origin ∧ status ≠ now.status ∧
            (∀ i, moment ≤ i → i ≤ origin → h.HasStatus i now.status) ∧
            ∃ before : Instant, before.seconds = moment.seconds - 60 ∧
              h.standingFrom before = .ok ⟨status, comment?⟩
      | .lasts status comment? =>
          now = ⟨status, comment?⟩ ∧
            ∀ k ≤ h.env.horizon, ∀ anchor, origin.date.add? (-(7 * k)) = some anchor →
              ∀ i : Instant, i.date.monday? = anchor.monday? → i ≤ origin →
                h.HasStatus i now.status := by
  obtain ⟨now, hnow, hrooted, n, hclear, hsettled⟩ := exists_settledAt_of_run hrun
  refine ⟨now, hnow, ?_⟩
  rcases hsettled with ⟨rfl, hend⟩ | ⟨t, hlooks, hsome⟩
  · refine ⟨rfl, fun k hk anchor hanchor i hi hbefore => ?_⟩
    have hk' := clear_of_unreached hclear hend hk hanchor
    obtain ⟨t, hlooks, hmonday, hnone⟩ := hk'.exists_looksAt hanchor
    exact hlooks.hasStatus_backward hrooted hnone (hi.trans hmonday) hbefore
  · obtain ⟨moment, status, comment?, rfl, hbefore, hdiffers, hweek, hminute, hafter⟩ :=
      hlooks.change_backward hrooted hsome
    refine ⟨hbefore, hdiffers, fun i hi horigin => ?_, hminute⟩
    have hfrom := le_trans (le_of_lt hweek) hi
    rcases lt_or_ge i (Instant.midnight (t.week.date 7)) with hwithin | hlater
    · exact hafter i (hlooks.monday?_iff.2 ⟨hfrom, hwithin⟩) hi horigin
    · refine hasStatus_of_clear_backward rfl hrooted hclear horigin ?_
      have hfirst := hlooks.first_backward rfl
      rw [Instant.midnight_le_iff, Date.le_iff] at hlater
      change t.week.first.number + 7 ≤ i.date.number at hlater
      dsimp only at hfirst ⊢
      omega

/-- On Monday morning the office opens; a minute before it is still closed. -/
theorem previousChange_office :
    office.previousChange mondayMorning = .ok (.changes mondayMorning .closed none) ∧
      office.HasStatus mondayMorning .opened ∧
      ∃ before : Instant, before.seconds = mondayMorning.seconds - 60 ∧
        office.standingFrom before = .ok ⟨.closed, none⟩ := by
  have hnow : office.standingFrom mondayMorning = .ok ⟨.opened, none⟩ := by decide +kernel
  have hweek : step ⟨office.rules, office.env, .backward, mondayMorning, ⟨.opened, none⟩⟩ 0 =
      .ok (.settled (.changes mondayMorning .closed none)) := by decide +kernel
  have hrun : office.previousChange mondayMorning = .ok (.changes mondayMorning .closed none) :=
    run_eq_ok_iff.2 ⟨_, hnow, finish_of_settled hweek⟩
  obtain ⟨now, hnow', _, _, hsince, hminute⟩ := previousChange_last hrun
  rw [hnow] at hnow'
  cases hnow'
  exact ⟨hrun, hsince mondayMorning (le_refl _) (le_refl _), hminute⟩

end Hours

end OpeningHours
