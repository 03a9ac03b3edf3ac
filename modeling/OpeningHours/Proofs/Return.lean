import OpeningHours.Proofs.Change

/-!
# Looking back from the next change

A search back that starts at a change found by a search forward comes to that change again, and
to the status that the first search started from. It has two weeks to look at. A change inside a
week is found in that week. A change on Monday 00:00 has no segment of its week before it, so the
search goes on to the week before; and that week lies within the horizon and has a timetable,
because the first search has come through it.

Both cases turn on the second before the change: the segment it lies in stops at the change, and
no later segment starts before it.
-/

namespace OpeningHours

namespace ChangeSearch

open Segment

variable {s : ChangeSearch} {k n : Nat} {o : Outlook} {t : Timetable} {i : Instant}

/-! ## The week before the origin -/

/-- A segment that starts before the origin and stops at it or after it is the last of its kind. -/
theorem lastBefore?_of_mem {f : Instant → Standing} {a b : Instant}
    {segments : List (Segment Instant)} (htrace : Traces f a segments b) {g : Segment Instant}
    (hg : g ∈ segments) (hstart : g.start < s.origin) (hstop : s.origin ≤ g.stop)
    (hdiffers : g.status ≠ s.standing.status) :
    s.lastBefore? segments = some (.changes g.stop g.status g.comment?) := by
  obtain ⟨before, after, rfl⟩ := List.append_of_mem hg
  obtain ⟨m, _, hrest⟩ := htrace.of_append
  cases hrest with
  | cons _ _ _ hlater =>
      refine Option.map_eq_some_iff.2 ⟨g, List.find?_eq_some_iff_append.2 ⟨?_, ?_⟩, rfl⟩
      · simp [differs, hstart, hdiffers]
      · refine ⟨after.reverse, before.reverse, by simp, fun x hx => ?_⟩
        -- what follows the segment starts after the origin
        have hle := (hlater.of_mem (List.mem_reverse.1 hx)).1
        simp [not_lt_of_ge (le_trans hstop hle)]

/-- A week with nothing before the origin has no change to look back to. -/
theorem lastBefore?_of_le {f : Instant → Standing} {a b : Instant}
    {segments : List (Segment Instant)} (htrace : Traces f a segments b) (ha : s.origin ≤ a) :
    s.lastBefore? segments = none := by
  refine Option.map_eq_none_iff.2 (List.find?_eq_none.2 fun g hg => ?_)
  have hle := (htrace.of_mem (List.mem_reverse.1 hg)).1
  simp [not_lt_of_ge (le_trans ha hle)]

/-- The week that has the second before the origin, and another status there, has its change there. -/
theorem LooksAt.lastBefore?_eq_origin (h : s.LooksAt k t) (hs : s.Rooted)
    (hi : i.date.monday? = some t.week.first) (hsecond : i.seconds + 1 = s.origin.seconds)
    {was : Standing} (hwas : s.hours.standingFrom i = .ok was)
    (hdiffers : was.status ≠ s.standing.status) :
    s.lastBefore? t.segments = some (.changes s.origin was.status was.comment?) := by
  obtain ⟨hle, hlt⟩ := h.monday?_iff.1 hi
  obtain ⟨g, hg, hstart, hstop⟩ := h.traces.exists_mem hle hlt
  obtain ⟨hfirst, _, hlast, hsaid⟩ := h.traces.of_mem hg
  have hstanding : g.standing = was := by
    rw [← hsaid i hstart hstop]
    exact Except.ok.inj ((h.standingFrom hi).symm.trans hwas)
  have hbefore : i < s.origin := Instant.lt_iff.2 (by omega)
  have hmeet : g.stop = s.origin := by
    refine le_antisymm (le_of_not_gt fun hlong => hdiffers ?_) ?_
    · -- a segment that went on past the origin would give it the status of the second before
      rw [← h.status_origin hs (le_trans hle (le_of_lt hbefore)) (lt_of_lt_of_le hlong hlast),
        hsaid s.origin (le_trans hstart (le_of_lt hbefore)) hlong, hstanding]
    · rw [Instant.lt_iff] at hstop
      exact Instant.le_iff.2 (by omega)
  subst hstanding
  rw [← hmeet]
  exact lastBefore?_of_mem h.traces hg (lt_of_le_of_lt hstart hbefore) (le_of_eq hmeet.symm)
    hdiffers

/-- A search back that comes to the week with the second before the origin ends at the origin. -/
theorem LooksAt.finish_eq_origin (h : s.LooksAt k t) (hdir : s.direction = .backward) (hs : s.Rooted)
    (hi : i.date.monday? = some t.week.first) (hsecond : i.seconds + 1 = s.origin.seconds)
    {was : Standing} (hwas : s.hours.standingFrom i = .ok was)
    (hdiffers : was.status ≠ s.standing.status) :
    s.finish k = .ok (.changes s.origin was.status was.comment?) := by
  refine finish_of_settled (step_eq_settled h ?_)
  rw [changeIn?, hdir]
  exact h.lastBefore?_eq_origin hs hi hsecond hwas hdiffers

/-- An instant whose week does not have the second before it is the first of its week. -/
theorem LooksAt.eq_midnight (h : s.LooksAt k t) {j : Instant} (hj : j.date.monday? = some t.week.first)
    (hsecond : i.seconds + 1 = j.seconds) (hi : ¬i.date.monday? = some t.week.first) :
    j = .midnight (t.week.date 0) := by
  obtain ⟨hle, hnext⟩ := h.monday?_iff.1 hj
  have hlt : i < j := Instant.lt_iff.2 (by omega)
  have hout : i < Instant.midnight (t.week.date 0) :=
    lt_of_not_ge fun hge => hi (h.monday?_iff.2 ⟨hge, lt_trans hlt hnext⟩)
  rw [Instant.le_iff] at hle
  rw [Instant.lt_iff] at hout
  exact Instant.eq_of_seconds_eq (by omega)

/-- A search forward that looks at the week after an instant has come through the week of it. -/
theorem exists_week_before (hdir : s.direction = .forward) (hs : s.Rooted)
    (hclear : ∀ m < n, s.Clear m) (hlooks : s.LooksAt n t) (hi : s.origin ≤ i)
    (hlow : t.week.first.number ≤ i.date.number + 7) (hhigh : i.date.number < t.week.first.number) :
    ∃ anchor t', s.hours.timetable anchor = .ok t' ∧ 1 ≤ s.env.horizon ∧
      t'.week.first.number + 7 = t.week.first.number ∧ i.date.monday? = some t'.week.first ∧
      s.hours.HasStatus i s.standing.status := by
  have hfirst := hlooks.first_forward hdir
  cases n with
  | zero =>
      -- the week of the origin has no instant before it that is not before the origin
      have hle := Instant.date_le hi
      rw [Date.le_iff] at hle
      unfold Date.mondayNumber at hfirst
      omega
  | succ k =>
      obtain ⟨t', hlooks', hnone⟩ := hclear k (Nat.lt_succ_self k)
      obtain ⟨anchor, _, hanchor, ht'⟩ := hlooks'.timetable
      have hfirst' := hlooks'.first_forward hdir
      have hin : i.date.monday? = some t'.week.first := by
        rw [Date.monday?_eq_some_iff] at hanchor ⊢
        unfold Date.mondayNumber at hfirst hfirst' hanchor ⊢
        omega
      simp only [changeIn?, hdir] at hnone
      exact ⟨anchor, t', ht', le_trans (Nat.le_add_left 1 k) hlooks.1, by omega, hin,
        hlooks'.hasStatus_forward hs hnone hin hi⟩

theorem LooksAt.of_monday? {d anchor : Date} (h : Hours) (origin : Instant) (now : Standing) (k : Nat)
    (ht : h.timetable d = .ok t) (hanchor : anchor.monday? = some t.week.first)
    (hk : k ≤ h.env.horizon) (hback : anchor.number = origin.date.number + -(7 * k)) :
    ∃ t', LooksAt ⟨h.rules, h.env, .backward, origin, now⟩ k t' ∧ t'.week = t.week := by
  obtain ⟨t', ht', hweek⟩ := Timetable.exists_around_of_monday? ht hanchor
  exact ⟨t', ⟨hk, anchor, Date.add?_eq_some_iff.2 hback, ht'⟩, hweek⟩

end ChangeSearch

namespace Hours

open ChangeSearch

variable {h : Hours} {origin moment : Instant} {status : Status} {comment? : Option String}

/--
**Looking back from the next change leads to that change.**

The search back from it does not fail, and finds the moment itself and the status that held where
the search forward started, with the comment that stood until then.
-/
theorem previousChange_of_nextChange
    (hrun : h.nextChange origin = .ok (.changes moment status comment?)) :
    ∃ now, h.standingFrom origin = .ok now ∧
      ∃ was?, h.previousChange moment = .ok (.changes moment now.status was?) ∧
        ∃ before : Instant, before.seconds + 1 = moment.seconds ∧
          h.standingFrom before = .ok ⟨now.status, was?⟩ := by
  obtain ⟨now, hnow, hrooted, n, hclear, hsettled⟩ := exists_settledAt_of_run hrun
  rcases hsettled with ⟨hlasting, _⟩ | ⟨t, hlooks, hsome⟩
  · cases hlasting
  obtain ⟨_, _, _, heq, hafter, hdiffers, hweek, hstanding, hbefore⟩ :=
    hlooks.change_forward hrooted hsome
  cases heq
  refine ⟨now, hnow, ?_⟩
  obtain ⟨_, _, _, ht⟩ := hlooks.timetable
  obtain ⟨i, hi⟩ := Instant.exists_seconds_eq (a := origin) (b := moment) (n := moment.seconds - 1)
    (Int.le_sub_one_of_lt hafter) (by omega)
  have hsecond : i.seconds + 1 = moment.seconds := by omega
  have horigin : origin ≤ i := Instant.le_iff.2 (hi ▸ Int.le_sub_one_of_lt hafter)
  have hlt : i < moment := Instant.lt_iff.2 (by omega)
  -- the week of the change, by the timetable of the change itself
  obtain ⟨t', hhere, hweek'⟩ := LooksAt.of_monday? h moment ⟨status, comment?⟩ 0
    ht hweek (Nat.zero_le _) (by omega)
  by_cases hin : i.date.monday? = some t.week.first
  · obtain ⟨was?, hwas⟩ := hbefore i hin horigin hlt
    have hback := hhere.finish_eq_origin rfl hstanding (hweek' ▸ hin) hsecond hwas (Ne.symm hdiffers)
    exact ⟨was?, run_eq_ok_iff.2 ⟨_, hstanding, hback⟩, i, hsecond, hwas⟩
  · -- the second before lies in the week before, so the change is the first instant of its week
    have hmonday := hlooks.eq_midnight hweek hsecond hin
    have hempty : lastBefore? ⟨h.rules, h.env, .backward, moment, ⟨status, comment?⟩⟩ t'.segments =
        none := lastBefore?_of_le hhere.traces (le_of_eq (hweek' ▸ hmonday))
    subst hmonday
    have hday : i.date.number + 1 = t.week.first.number := by
      have := i.second_lt
      simp only [Instant.seconds, Instant.midnight, Week.date] at hsecond
      omega
    obtain ⟨_, t₀, ht₀, hwithin, hfirst, hin₀, was?, hwas⟩ :=
      exists_week_before rfl hrooted hclear hlooks horigin (by omega) (by omega)
    have hapart : t₀.week.first.number + 0 = t.week.first.number + 0 + -(7 * 1) := by omega
    obtain ⟨t₁, hthere, hweek₁⟩ := LooksAt.of_monday? h (.midnight (t.week.date 0))
      ⟨status, comment?⟩ 1 ht₀ (Week.monday?_date hin₀ 0) hwithin hapart
    have hback := hthere.finish_eq_origin rfl hstanding (hweek₁ ▸ hin₀) hsecond hwas
      (Ne.symm hdiffers)
    refine ⟨was?, run_eq_ok_iff.2 ⟨_, hstanding, ?_⟩, i, hsecond, hwas⟩
    rw [finish_of_searching (step_eq_searching ⟨t', hhere, hempty⟩)]
    exact hback

/-- Open on Mondays; a search looks at the week it starts in and at one more. -/
def mondays : Hours :=
  { rules := [{ id := ⟨"mondays"⟩, weekdays := [.single .mon] }], env := { horizon := 1 } }

/-- Sunday, 8 August 2021, 12:00. -/
def sundayNoon : Instant := ⟨⟨738375, by decide, by decide⟩, 43200, by decide⟩

/-- Monday, 9 August 2021, 00:00. -/
def mondayMidnight : Instant := .midnight ⟨738376, by decide, by decide⟩

/-- The opening on Monday 00:00 is found from the week before, and looked back to from there. -/
theorem previousChange_of_nextChange_mondays :
    mondays.nextChange sundayNoon = .ok (.changes mondayMidnight .opened none) ∧
      ∃ was?, mondays.previousChange mondayMidnight =
        .ok (.changes mondayMidnight .closed was?) := by
  have hnow : mondays.standingFrom sundayNoon = .ok .closed := by decide +kernel
  have hweek : step ⟨mondays.rules, mondays.env, .forward, sundayNoon, .closed⟩ 0 =
      .ok (.searching 1) := by decide +kernel
  have hnext : step ⟨mondays.rules, mondays.env, .forward, sundayNoon, .closed⟩ 1 =
      .ok (.settled (.changes mondayMidnight .opened none)) := by decide +kernel
  have hrun : mondays.nextChange sundayNoon = .ok (.changes mondayMidnight .opened none) :=
    run_eq_ok_iff.2 ⟨.closed, hnow, (finish_of_searching hweek).trans (finish_of_settled hnext)⟩
  obtain ⟨now, hnow', was?, hback, _⟩ := previousChange_of_nextChange hrun
  rw [hnow] at hnow'
  cases hnow'
  exact ⟨hrun, was?, hback⟩

end Hours

end OpeningHours
