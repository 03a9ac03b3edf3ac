import OpeningHours.Proofs.CalendarEnds
import OpeningHours.Proofs.Machine.Arithmetic

/-!
# How many steps a search takes

A search takes one step for every week it looks at, and its last step ends it. It goes on from a
week only if the week lies within the horizon and is looked up at a date of the calendar. Either of
the two bounds the steps on its own: the horizon, however near or far the calendar ends, and the
weeks that the calendar has ahead, however large the horizon is.

The second bound is what a machine relies on. The largest horizon it can be given is the largest
number it can count the weeks with, so the test for the horizon alone would let the count run over.
The calendar ends long before that.
-/

namespace OpeningHours

namespace ChangeSearch

variable {s : ChangeSearch} {k m n bound : Nat} {r r' : Except HoursError Outlook}

/-- From a week on, the search takes so many steps and comes to a result. -/
inductive Takes (s : ChangeSearch) : Nat → Nat → Except HoursError Outlook → Prop
  | fails {k : Nat} {e : HoursError} (hstep : s.step k = .error e) : Takes s k 1 (.error e)
  | settles {k : Nat} {o : Outlook} (hstep : s.step k = .ok (.settled o)) : Takes s k 1 (.ok o)
  | goesOn {k next n : Nat} {r : Except HoursError Outlook}
      (hstep : s.step k = .ok (.searching next)) (hlater : Takes s next n r) : Takes s k (n + 1) r

/-- The search comes to what its recursion gives, in some number of steps. -/
theorem exists_takes (s : ChangeSearch) (k : Nat) : ∃ n, s.Takes k n (s.finish k) := by
  induction k using finish.induct s with
  | case1 k e hstep =>
      rw [finish_of_error hstep]
      exact ⟨1, .fails hstep⟩
  | case2 k o hstep =>
      rw [finish_of_settled hstep]
      exact ⟨1, .settles hstep⟩
  | case3 k next hstep _ ih =>
      obtain ⟨n, hlater⟩ := ih
      rw [finish_of_searching hstep]
      exact ⟨n + 1, .goesOn hstep hlater⟩

/-- The number of steps and the result depend on nothing but the week. -/
theorem Takes.unique (h : s.Takes k n r) (h' : s.Takes k m r') : m = n ∧ r' = r := by
  induction h generalizing m with
  | fails hstep =>
      cases h' with
      | fails hstep' =>
          cases hstep.symm.trans hstep'
          exact ⟨rfl, rfl⟩
      | settles hstep' => cases hstep.symm.trans hstep'
      | goesOn hstep' _ => cases hstep.symm.trans hstep'
  | settles hstep =>
      cases h' with
      | fails hstep' => cases hstep.symm.trans hstep'
      | settles hstep' =>
          cases hstep.symm.trans hstep'
          exact ⟨rfl, rfl⟩
      | goesOn hstep' _ => cases hstep.symm.trans hstep'
  | goesOn hstep _ ih =>
      cases h' with
      | fails hstep' => cases hstep.symm.trans hstep'
      | settles hstep' => cases hstep.symm.trans hstep'
      | goesOn hstep' hlater' =>
          cases hstep.symm.trans hstep'
          obtain ⟨rfl, rfl⟩ := ih hlater'
          exact ⟨rfl, rfl⟩

/-- All steps but the last go on, each to the week after. -/
theorem Takes.step_eq_searching (h : s.Takes k n r) (hm : m + 1 < n) :
    s.step (k + m) = .ok (.searching (k + m + 1)) := by
  induction h generalizing m with
  | fails _ => omega
  | settles _ => omega
  | goesOn hstep _ ih =>
      obtain ⟨rfl, _⟩ := searching_of_step hstep
      cases m with
      | zero => exact hstep
      | succ m =>
          have hlater := ih (Nat.lt_of_succ_lt_succ hm)
          rwa [Nat.add_right_comm] at hlater

/-- A search that never goes on from a week past a bound takes at most two steps more than that. -/
theorem Takes.add_le (h : s.Takes k n r) (hk : k ≤ bound + 1)
    (hbound : ∀ k next, s.step k = .ok (.searching next) → k ≤ bound) : k + n ≤ bound + 2 := by
  induction h with
  | fails _ => omega
  | settles _ => omega
  | goesOn hstep _ ih =>
      have hwithin := hbound _ _ hstep
      obtain ⟨rfl, _⟩ := searching_of_step hstep
      have hlater := ih (Nat.succ_le_succ hwithin)
      omega

/-- A search goes on from a week that the calendar has, within the horizon. -/
theorem le_of_step {next : Nat} (h : s.step k = .ok (.searching next)) :
    k ≤ s.env.horizon ∧ k ≤ s.weeksAhead := by
  rcases step_cases h with ⟨_, heq, _⟩ | ⟨_, _, ⟨hwithin, anchor, hanchor, _⟩, _⟩
  · cases heq
  · exact ⟨hwithin, exists_anchor?_iff.1 ⟨anchor, hanchor⟩⟩

/-- Both bounds hold of the steps of a search from its own week on. -/
theorem Takes.le (h : s.Takes 0 n r) : n ≤ s.env.horizon + 2 ∧ n ≤ s.weeksAhead + 2 := by
  have hhorizon := h.add_le (Nat.zero_le _) fun _ _ hstep => (le_of_step hstep).1
  have hcalendar := h.add_le (Nat.zero_le _) fun _ _ hstep => (le_of_step hstep).2
  rw [Nat.zero_add] at hhorizon hcalendar
  exact ⟨hhorizon, hcalendar⟩

/-- What a step counts with fits its types. -/
theorem Takes.fits (h : s.Takes 0 n r) (hk : k < n) :
    Machine.uint32 (k + 1) = .ok (k + 1) ∧ Machine.int64 (7 * k) = .ok (7 * k) ∧
      Machine.duration (7 * k) = .ok (7 * k) := by
  have hcalendar := h.le.2
  have hweeks := s.weeksAhead_le
  refine ⟨?_, ?_, ?_⟩
  · exact Machine.uint32_eq (Int.natCast_succ k).symm (by omega)
  · exact Machine.int64_eq (by omega)
  · exact Machine.duration_eq (by omega)

/--
**A search ends, and never counts too far.**

Whatever the rules, the setting and the direction: either the date of the origin has no timetable
and the search fails before its first step, or it takes a certain number of steps, which is at most
two more than its horizon and at most two more than the weeks that the calendar has ahead. Each
step but the last goes on to the next week. In none of them, for any horizon, does the count of
weeks with one added leave 32 bits, or the number of days that the weeks make leave 64 bits or the
range of a duration.
-/
theorem run_takes (rules : List Rule) (env : Setting) (origin : Instant) (direction : Direction) :
    (∃ e, Timetable.around rules env origin.date = .error e ∧
      run rules env origin direction = .error e) ∨
    ∃ (s : ChangeSearch) (n : Nat),
      (∃ now, Hours.standingFrom ⟨rules, env⟩ origin = .ok now ∧
        s = ⟨rules, env, direction, origin, now⟩) ∧
      s.Takes 0 n (run rules env origin direction) ∧
      (∀ m r, s.Takes 0 m r → m = n ∧ r = run rules env origin direction) ∧
      n ≤ env.horizon + 2 ∧ n ≤ s.weeksAhead + 2 ∧
      (∀ k next, s.step k = .ok (.searching next) → next = k + 1) ∧
      (∀ k, k + 1 < n → s.step k = .ok (.searching (k + 1))) ∧
      ∀ k < n, Machine.uint32 (k + 1) = .ok (k + 1) ∧ Machine.int64 (7 * k) = .ok (7 * k) ∧
        Machine.duration (7 * k) = .ok (7 * k) := by
  cases ht : Timetable.around rules env origin.date with
  | error e => exact Or.inl ⟨e, rfl, bind_eq_error_iff.2 (Or.inl ht)⟩
  | ok t =>
      have hnow : Hours.standingFrom ⟨rules, env⟩ origin = .ok (t.standingFrom origin) :=
        bind_eq_ok_iff.2 ⟨t, ht, rfl⟩
      have hrun : run rules env origin direction =
          finish ⟨rules, env, direction, origin, t.standingFrom origin⟩ 0 := by
        refine (run_eq ⟨rules, env⟩ origin direction).trans ?_
        rw [hnow]
        rfl
      obtain ⟨n, htakes⟩ := exists_takes ⟨rules, env, direction, origin, t.standingFrom origin⟩ 0
      rw [← hrun] at htakes
      refine Or.inr ⟨_, n, ⟨t.standingFrom origin, hnow, rfl⟩, htakes, fun m r h => htakes.unique h,
        htakes.le.1, htakes.le.2, fun k next hstep => (searching_of_step hstep).1, fun k hk => ?_,
        fun k hk => htakes.fits hk⟩
      have hstep := htakes.step_eq_searching hk
      rwa [Nat.zero_add] at hstep

/-- The largest horizon that a machine can be given. -/
def farthest : Setting := { horizon := 4294967295 }

/-- With the largest horizon, a search from the last Tuesday of the calendar takes two steps at
most. -/
theorem run_takes_tuesdayAtEnd :
    ∃ (s : ChangeSearch) (n : Nat),
      s.Takes 0 n (run Hours.alwaysOpen.rules farthest Hours.tuesdayAtEnd .forward) ∧ n ≤ 2 := by
  rcases run_takes Hours.alwaysOpen.rules farthest Hours.tuesdayAtEnd .forward with
    hfails | ⟨s, n, hs, htakes, _, _, hcalendar, _⟩
  · obtain ⟨e, he, _⟩ := hfails
    obtain ⟨t, ht⟩ := Hours.exists_around_alwaysOpen farthest (d := Hours.tuesdayAtEnd.date)
      (Date.hasWeek_iff.2 (by decide))
    cases he.symm.trans ht
  · obtain ⟨now, _, rfl⟩ := hs
    have hweeks : weeksAhead ⟨Hours.alwaysOpen.rules, farthest, .forward, Hours.tuesdayAtEnd, now⟩ = 0 := by
      unfold weeksAhead
      dsimp only [Hours.tuesdayAtEnd]
      decide
    rw [hweeks] at hcalendar
    exact ⟨_, n, htakes, hcalendar⟩

end ChangeSearch

end OpeningHours
