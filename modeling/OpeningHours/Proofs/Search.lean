import OpeningHours.Hours
import OpeningHours.Proofs.WeekSegments

/-!
# What a search has seen when it ends

A search goes on from a week when it finds no change there, so when it ends it has gone on
from every week before the one that settled it. The week that settled it has a change, or it
lies past the horizon or outside the calendar.

What a week without a change says is read off its segments: on the side of the origin that is
looked at, the status is that of the origin throughout. It takes the segment in which the
origin lies to see this, and that one is never compared; it has the status of the origin
because the timetable of any date of a week says the same of the whole of it.
-/

namespace OpeningHours

/-! ## What holds from an instant on -/

namespace Hours

variable {h : Hours} {d : Date} {t : Timetable} {i : Instant}

/-- What holds from an instant on, by the timetable of its own date. -/
def standingFrom (h : Hours) (i : Instant) : Except HoursError Standing := do
  return (← h.timetable i.date).standingFrom i

/-- From an instant on there is a timetable and a status. -/
def HasStatus (h : Hours) (i : Instant) (status : Status) : Prop :=
  ∃ comment?, h.standingFrom i = .ok ⟨status, comment?⟩

/-- What holds at an instant can be read off the timetable of any date of its week. -/
theorem standingFrom_eq (ht : h.timetable d = .ok t) (hi : i.date.monday? = some t.week.first) :
    h.standingFrom i = .ok (t.standingFrom i) := by
  obtain ⟨t', ht', hweek⟩ := Timetable.exists_around_of_monday? ht hi
  refine bind_eq_ok_iff.2 ⟨t', ht', ?_⟩
  unfold Timetable.standingFrom
  rw [Timetable.day_eq ht ht' hweek]
  rfl

theorem hasStatus_of_timetable {status : Status} (ht : h.timetable d = .ok t)
    (hi : i.date.monday? = some t.week.first) (hs : (t.standingFrom i).status = status) :
    h.HasStatus i status := by
  refine ⟨(t.standingFrom i).comment?, ?_⟩
  rw [standingFrom_eq ht hi, ← hs]

end Hours

namespace ChangeSearch

variable {s : ChangeSearch} {k n : Nat} {o : Outlook} {t : Timetable} {d : Date}

/-! ## The weeks ahead -/

theorem anchor?_forward (hdir : s.direction = .forward) (k : Nat) :
    s.anchor? k = s.origin.date.add? (7 * k) := by
  unfold anchor?
  rw [hdir]

theorem anchor?_backward (hdir : s.direction = .backward) (k : Nat) :
    s.anchor? k = s.origin.date.add? (-(7 * k)) := by
  unfold anchor?
  rw [hdir]

/-- How many whole weeks the calendar has from the date of the origin on, or back from it. -/
def weeksAhead (s : ChangeSearch) : Nat :=
  match s.direction with
  | .forward => (95745764 - s.origin.date.number).toNat / 7
  | .backward => (s.origin.date.number + 95745764).toNat / 7

/-- A search looks up the weeks ahead at dates of the calendar, and no others. -/
theorem exists_anchor?_iff : (∃ d, s.anchor? k = some d) ↔ k ≤ s.weeksAhead := by
  have hfirst := s.origin.date.first_le
  have hlast := s.origin.date.le_last
  unfold weeksAhead
  cases hdir : s.direction with
  | forward =>
      simp only [anchor?_forward hdir, Date.add?_eq_some_iff]
      constructor
      · intro hgiven
        obtain ⟨d, hd⟩ := hgiven
        have hd' := d.le_last
        omega
      · intro hk
        exact ⟨⟨s.origin.date.number + 7 * k, by omega, by omega⟩, rfl⟩
  | backward =>
      simp only [anchor?_backward hdir, Date.add?_eq_some_iff]
      constructor
      · intro hgiven
        obtain ⟨d, hd⟩ := hgiven
        have hd' := d.first_le
        omega
      · intro hk
        exact ⟨⟨s.origin.date.number + -(7 * k), by omega, by omega⟩, rfl⟩

/-- The calendar has fewer than 2²⁵ weeks. -/
theorem weeksAhead_le (s : ChangeSearch) : s.weeksAhead ≤ 27355932 := by
  have hfirst := s.origin.date.first_le
  have hlast := s.origin.date.le_last
  unfold weeksAhead
  split <;> omega

theorem weeks_le_of_anchor? (h : s.anchor? k = some d) : k ≤ 27355932 :=
  Nat.le_trans (exists_anchor?_iff.1 ⟨d, h⟩) s.weeksAhead_le

/-- The weeks before one that lies in the calendar lie in it too. -/
theorem exists_anchor?_of_le (h : s.anchor? n = some d) (hk : k ≤ n) :
    ∃ nearer, s.anchor? k = some nearer :=
  exists_anchor?_iff.2 (Nat.le_trans hk (exists_anchor?_iff.1 ⟨d, h⟩))

/-! ## The loop -/

/-- The timetable of the week so many weeks away, within the horizon and inside the calendar. -/
def LooksAt (s : ChangeSearch) (k : Nat) (t : Timetable) : Prop :=
  k ≤ s.env.horizon ∧
    ∃ anchor, s.anchor? k = some anchor ∧ Timetable.around s.rules s.env anchor = .ok t

/-- The week so many weeks away has no change. -/
def Clear (s : ChangeSearch) (k : Nat) : Prop :=
  ∃ t, s.LooksAt k t ∧ s.changeIn? t.segments = none

/-- What settles a search at a week: there is no such week to look at, or it has a change. -/
def SettledAt (s : ChangeSearch) (k : Nat) (o : Outlook) : Prop :=
  (o = s.lasting ∧ (s.env.horizon < k ∨ s.anchor? k = none)) ∨
    ∃ t, s.LooksAt k t ∧ s.changeIn? t.segments = some o

theorem step_cases {p : Progress} (h : s.step k = .ok p) :
    (∃ o, p = .settled o ∧ s.SettledAt k o) ∨ p = .searching (k + 1) ∧ s.Clear k := by
  unfold step at h
  split at h
  · rename_i hpast
    cases h
    exact .inl ⟨s.lasting, rfl, .inl ⟨rfl, .inl hpast⟩⟩
  · rename_i hwithin
    split at h
    · rename_i hnone
      cases h
      exact .inl ⟨s.lasting, rfl, .inl ⟨rfl, .inr hnone⟩⟩
    · rename_i anchor hanchor
      split at h
      · cases h
      · rename_i t ht
        have hlooks : s.LooksAt k t := ⟨Nat.le_of_not_lt hwithin, anchor, hanchor, ht⟩
        split at h
        · rename_i o hfound
          cases h
          exact .inl ⟨o, rfl, .inr ⟨t, hlooks, hfound⟩⟩
        · rename_i hnone
          cases h
          exact .inr ⟨rfl, t, hlooks, hnone⟩

theorem step_eq_settled (h : s.LooksAt k t) (hsome : s.changeIn? t.segments = some o) :
    s.step k = .ok (.settled o) := by
  obtain ⟨hwithin, anchor, hanchor, ht⟩ := h
  unfold step
  rw [if_neg (Nat.not_lt.2 hwithin)]
  simp only [hanchor, ht, hsome]

theorem step_eq_searching (h : s.Clear k) : s.step k = .ok (.searching (k + 1)) := by
  obtain ⟨t, ⟨hwithin, anchor, hanchor, ht⟩, hnone⟩ := h
  unfold step
  rw [if_neg (Nat.not_lt.2 hwithin)]
  simp only [hanchor, ht, hnone]

theorem step_eq_lasting (h : s.env.horizon < k ∨ s.anchor? k = none) :
    s.step k = .ok (.settled s.lasting) := by
  unfold step
  rcases h with hpast | hnone
  · rw [if_pos hpast]
  · split
    · rfl
    · simp only [hnone]

theorem step_eq_error_iff {e : HoursError} : s.step k = .error e ↔ k ≤ s.env.horizon ∧
    ∃ anchor, s.anchor? k = some anchor ∧ Timetable.around s.rules s.env anchor = .error e := by
  constructor
  · intro h
    unfold step at h
    split at h
    · cases h
    · rename_i hwithin
      split at h
      · cases h
      · rename_i anchor hanchor
        split at h
        · rename_i hfault
          cases h
          exact ⟨Nat.le_of_not_lt hwithin, anchor, hanchor, hfault⟩
        · split at h <;> cases h
  · intro hgiven
    obtain ⟨hwithin, anchor, hanchor, hfault⟩ := hgiven
    unfold step
    rw [if_neg (Nat.not_lt.2 hwithin)]
    simp only [hanchor, hfault]

theorem finish_eq (s : ChangeSearch) (k : Nat) :
    s.finish k = s.step k >>= fun progress =>
      match progress with
      | .settled o => .ok o
      | .searching next => s.finish next := by
  rw [finish]
  split <;> rename_i hstep <;> simp only [hstep] <;> rfl

theorem finish_of_settled (h : s.step k = .ok (.settled o)) : s.finish k = .ok o := by
  rw [finish_eq, h]
  rfl

theorem finish_of_error {e : HoursError} (h : s.step k = .error e) : s.finish k = .error e := by
  rw [finish_eq, h]
  rfl

theorem finish_of_searching {next : Nat} (h : s.step k = .ok (.searching next)) :
    s.finish k = s.finish next := by
  rw [finish_eq, h]
  rfl

/-- A search goes on from week to week up to one where it does not, and this one decides it. -/
theorem exists_last_step (s : ChangeSearch) (k : Nat) :
    ∃ n, k ≤ n ∧ (∀ m, k ≤ m → m < n → s.Clear m) ∧
      (∀ next, s.step n ≠ .ok (.searching next)) ∧ s.finish k = s.finish n := by
  -- along the recursion of `finish`: a step that goes on adds its week to those that are clear
  induction k using finish.induct s with
  | case1 k e hstep =>
      refine ⟨k, Nat.le_refl k, fun m hk hm => absurd hm (Nat.not_lt.2 hk), fun next h => ?_, rfl⟩
      rw [hstep] at h
      cases h
  | case2 k o hstep =>
      refine ⟨k, Nat.le_refl k, fun m hk hm => absurd hm (Nat.not_lt.2 hk), fun next h => ?_, rfl⟩
      rw [hstep] at h
      cases h
  | case3 k next hstep _ ih =>
      obtain ⟨n, hnext, hclear, hlast, hfinish⟩ := ih
      rcases step_cases hstep with ⟨_, heq, _⟩ | ⟨heq, hhere⟩
      · cases heq
      · cases heq
        refine ⟨n, Nat.le_of_succ_le hnext, fun m hk hm => ?_, hlast, ?_⟩
        · rcases Nat.eq_or_lt_of_le hk with rfl | hlater
          · exact hhere
          · exact hclear m hlater hm
        · rw [finish_of_searching hstep, hfinish]

/-- A search that ends has gone on from every week before the one that settled it. -/
theorem exists_settledAt_of_finish (h : s.finish k = .ok o) :
    ∃ n, (∀ m, k ≤ m → m < n → s.Clear m) ∧ s.SettledAt n o := by
  obtain ⟨n, _, hclear, hlast, hfinish⟩ := s.exists_last_step k
  rw [hfinish, finish_eq] at h
  obtain ⟨p, hstep, h⟩ := bind_eq_ok_iff.1 h
  refine ⟨n, hclear, ?_⟩
  rcases step_cases hstep with ⟨_, rfl, hsettled⟩ | ⟨rfl, _⟩
  · cases h
    exact hsettled
  · exact absurd hstep (hlast _)

/-- A search fails at the first week that is not clear, when this one has no timetable. -/
theorem finish_eq_error_iff {e : HoursError} :
    s.finish k = .error e ↔ ∃ n, k ≤ n ∧ (∀ m, k ≤ m → m < n → s.Clear m) ∧ s.step n = .error e := by
  constructor
  · intro h
    obtain ⟨n, hk, hclear, hlast, hfinish⟩ := s.exists_last_step k
    refine ⟨n, hk, hclear, ?_⟩
    rw [hfinish, finish_eq] at h
    cases hstep : s.step n with
    | error fault =>
        rw [hstep] at h
        cases h
        rfl
    | ok p =>
        rw [hstep] at h
        rcases step_cases hstep with ⟨_, rfl, _⟩ | ⟨rfl, _⟩
        · cases h
        · exact absurd hstep (hlast _)
  · intro hgiven
    obtain ⟨n, hk, hclear, hstep⟩ := hgiven
    induction hk using Nat.decreasingInduction with
    | self => exact finish_of_error hstep
    | of_succ m hm ih =>
        rw [finish_of_searching (step_eq_searching (hclear m (Nat.le_refl m) hm))]
        exact ih fun m' hm' => hclear m' (Nat.le_of_succ_le hm')

theorem run_eq (h : Hours) (origin : Instant) (direction : Direction) :
    run h.rules h.env origin direction = h.standingFrom origin >>= fun now =>
      finish ⟨h.rules, h.env, direction, origin, now⟩ 0 := by
  unfold run Hours.standingFrom Hours.timetable
  cases Timetable.around h.rules h.env origin.date <;> rfl

theorem run_eq_ok_iff {h : Hours} {origin : Instant} {direction : Direction} :
    run h.rules h.env origin direction = .ok o ↔ ∃ now, h.standingFrom origin = .ok now ∧
      finish ⟨h.rules, h.env, direction, origin, now⟩ 0 = .ok o := by
  rw [run_eq, bind_eq_ok_iff]

/-! ## The segments of a week -/

open Segment

variable {segments : List (Segment Instant)}

theorem firstAfter?_eq_none (h : s.firstAfter? segments = none) :
    ∀ g ∈ segments, s.origin < g.start → g.status = s.standing.status := by
  intro g hg hafter
  have := List.find?_eq_none.1 (Option.map_eq_none_iff.1 h) g hg
  simpa [differs, hafter] using this

/-- The change found is the start of the first segment of its kind. -/
theorem firstAfter?_eq_some (h : s.firstAfter? segments = some o) :
    ∃ before g after, segments = before ++ g :: after ∧ o = .changes g.start g.status g.comment? ∧
      s.origin < g.start ∧ g.status ≠ s.standing.status ∧
      ∀ x ∈ before, s.origin < x.start → x.status = s.standing.status := by
  obtain ⟨g, hfind, rfl⟩ := Option.map_eq_some_iff.1 h
  obtain ⟨hg, before, after, hsplit, hbefore⟩ := List.find?_eq_some_iff_append.1 hfind
  rw [Bool.and_eq_true, decide_eq_true_eq] at hg
  refine ⟨before, g, after, hsplit, rfl, hg.1, ?_, ?_⟩
  · simpa [differs] using hg.2
  · intro x hx hafter
    simpa [differs, hafter] using hbefore x hx

theorem lastBefore?_eq_none (h : s.lastBefore? segments = none) :
    ∀ g ∈ segments, g.start < s.origin → g.status = s.standing.status := by
  intro g hg hbefore
  have := List.find?_eq_none.1 (Option.map_eq_none_iff.1 h) g (List.mem_reverse.2 hg)
  simpa [differs, hbefore] using this

/-- The change found is the stop of the last segment of its kind. -/
theorem lastBefore?_eq_some (h : s.lastBefore? segments = some o) :
    ∃ before g after, segments = before ++ g :: after ∧ o = .changes g.stop g.status g.comment? ∧
      g.start < s.origin ∧ g.status ≠ s.standing.status ∧
      ∀ x ∈ after, x.start < s.origin → x.status = s.standing.status := by
  obtain ⟨g, hfind, rfl⟩ := Option.map_eq_some_iff.1 h
  obtain ⟨hg, after, before, hsplit, hafter⟩ := List.find?_eq_some_iff_append.1 hfind
  rw [Bool.and_eq_true, decide_eq_true_eq] at hg
  have hforward : segments = before.reverse ++ g :: after.reverse := by
    rw [← List.reverse_reverse segments, hsplit]
    simp
  refine ⟨before.reverse, g, after.reverse, hforward, rfl, hg.1, ?_, ?_⟩
  · simpa [differs] using hg.2
  · intro x hx hbefore
    simpa [differs, hbefore] using hafter x (List.mem_reverse.1 hx)

section Traces

variable {f : Instant → Standing} {a b i : Instant}

/-- Where no later segment has another status, that of the origin lasts from it on. -/
theorem status_eq_of_forall_after (htrace : Traces f a segments b)
    (horigin : a ≤ s.origin → s.origin < b → (f s.origin).status = s.standing.status)
    (hclear : ∀ g ∈ segments, s.origin < g.start → g.status = s.standing.status)
    (ha : a ≤ i) (hb : i < b) (hi : s.origin ≤ i) : (f i).status = s.standing.status := by
  obtain ⟨g, hg, hstart, hstop⟩ := htrace.exists_mem ha hb
  obtain ⟨hle, _, _, hsaid⟩ := htrace.of_mem hg
  rw [hsaid i hstart hstop]
  rcases lt_or_ge s.origin g.start with hafter | hwithin
  · exact hclear g hg hafter
  · -- the segment of the origin
    rw [← horigin (le_trans hle hwithin) (lt_of_le_of_lt hi hb),
      hsaid s.origin hwithin (lt_of_le_of_lt hi hstop)]

/-- Where no earlier segment has another status, that of the origin has lasted up to it. -/
theorem status_eq_of_forall_before (htrace : Traces f a segments b)
    (horigin : a ≤ s.origin → s.origin < b → (f s.origin).status = s.standing.status)
    (hclear : ∀ g ∈ segments, g.start < s.origin → g.status = s.standing.status)
    (ha : a ≤ i) (hb : i < b) (hi : i ≤ s.origin) : (f i).status = s.standing.status := by
  obtain ⟨g, hg, hstart, hstop⟩ := htrace.exists_mem ha hb
  obtain ⟨_, _, _, hsaid⟩ := htrace.of_mem hg
  rcases lt_or_ge g.start s.origin with hbefore | hfrom
  · rw [hsaid i hstart hstop]
    exact hclear g hg hbefore
  · -- the segment starts at the origin, and the instant is there too
    obtain rfl : i = s.origin := le_antisymm hi (le_trans hfrom hstart)
    exact horigin ha hb

end Traces

end ChangeSearch

end OpeningHours
