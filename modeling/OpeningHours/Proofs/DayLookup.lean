import OpeningHours.Proofs.DayLife

/-!
# What a day has at a minute

Asked for a minute, a day goes through its intervals for one that has the minute, and failing that
for one whose closed span has it. It takes the first it comes to, but no other order would give
another answer. No two intervals have a minute in common; and where none has the minute asked for,
one whose closed span has it must end there, which no two intervals do, as each has a minute
before its end.

So what is at a minute and what is in force from it on are the same, except where an interval ends
and no other one starts.
-/

namespace OpeningHours

/-! ## Intervals with minutes and none in common -/

namespace Timeline

variable {list other : Timeline} {minute : Nat} {iv : Interval}

/-- Where no two intervals pass a test together, one at most passes it. -/
theorem countP_le_one {p : Interval → Bool}
    (h : list.Pairwise fun a b => p a = true → p b = false) : list.countP p ≤ 1 := by
  induction list with
  | nil => exact Nat.zero_le 1
  | cons head rest ih =>
      obtain ⟨hhead, hrest⟩ := List.pairwise_cons.1 h
      by_cases hp : p head = true
      · have hnone : rest.countP p = 0 := by
          rw [List.countP_eq_zero]
          intro b hb hpb
          rw [hhead b hb hp] at hpb
          exact Bool.false_ne_true hpb
        have hcount := List.countP_cons_of_pos (l := rest) hp
        omega
      · rw [List.countP_cons_of_neg hp]
        exact ih hrest

theorem countP_contains_le_one (h : list.Tidy) (minute : Nat) :
    list.countP (·.contains minute) ≤ 1 := by
  refine countP_le_one (h.ordered.imp ?_)
  intro a b hab ha
  rw [Interval.contains_iff] at ha
  rw [Interval.contains_eq_false_iff]
  omega

theorem countP_stop_le_one (h : list.Tidy) (minute : Nat) :
    list.countP (·.stop == minute) ≤ 1 := by
  refine countP_le_one (h.ordered.imp_of_mem ?_)
  intro a b _ hb hab ha
  have hlt := h.minutes b hb
  rw [beq_iff_eq] at ha
  rw [beq_eq_false_iff_ne]
  omega

/-- The intervals have minutes, and none in common, whatever the order they are listed in. -/
structure Separate (list : Timeline) : Prop where
  minutes : ∀ iv ∈ list, iv.start < iv.stop
  apart : list.Pairwise Apart

theorem Tidy.separate (h : list.Tidy) : list.Separate := ⟨h.minutes, h.pairwise_apart⟩

theorem Separate.of_perm (h : list.Separate) (hp : other.Perm list) : other.Separate :=
  ⟨fun iv hiv => h.minutes iv (hp.mem_iff.1 hiv), hp.symm.pairwise h.apart fun hab => hab.symm⟩

theorem Separate.eq_of_stop_eq (h : list.Separate) {a b : Interval} (ha : a ∈ list) (hb : b ∈ list)
    (hstop : a.stop = b.stop) : a = b := by
  have hlt := h.minutes a ha
  have hlt' := h.minutes b hb
  by_contra hne
  have hapart : Apart a b := h.apart.forall ha hb hne
  unfold Apart at hapart
  omega

/-- Where no interval has a minute, the one whose closed span has it is the one that ends there. -/
theorem Separate.find?_containsClosed_eq_some_iff (h : list.Separate)
    (hfree : ∀ x ∈ list, x.contains minute = false) :
    List.find? (Interval.containsClosed · minute) list = some iv ↔
      iv ∈ list ∧ iv.stop = minute := by
  have hends : ∀ x ∈ list, x.containsClosed minute = true ↔ x.stop = minute := by
    intro x hx
    have hlt := h.minutes x hx
    have hout := Interval.contains_eq_false_iff.1 (hfree x hx)
    rw [Interval.containsClosed_iff]
    omega
  rw [find?_eq_some_iff_of_unique]
  · exact and_congr_right fun hiv => hends iv hiv
  · intro a ha b hb hma hmb
    exact h.eq_of_stop_eq ha hb (((hends a ha).1 hma).trans ((hends b hb).1 hmb).symm)

end Timeline

/-! ## The two questions -/

namespace DayPlan

variable {day : DayPlan} {minute : Nat} {iv : Interval}

theorem at?_eq_some_iff (h : day.intervals.Separate) :
    day.at? minute = some iv ↔ iv ∈ day.intervals ∧
      (iv.contains minute = true ∨
        iv.stop = minute ∧ ∀ x ∈ day.intervals, x.contains minute = false) := by
  unfold at? inForce?
  rw [Option.or_eq_some_iff, Timeline.covering?_eq_some_iff h.apart, Timeline.covering?_eq_none_iff]
  constructor
  · intro hgiven
    rcases hgiven with ⟨hiv, hm⟩ | ⟨hfree, hfind⟩
    · exact ⟨hiv, Or.inl hm⟩
    · obtain ⟨hiv, hstop⟩ := (h.find?_containsClosed_eq_some_iff hfree).1 hfind
      exact ⟨hiv, Or.inr ⟨hstop, hfree⟩⟩
  · intro hgiven
    obtain ⟨hiv, hm | ⟨hstop, hfree⟩⟩ := hgiven
    · exact Or.inl ⟨hiv, hm⟩
    · exact Or.inr ⟨hfree, (h.find?_containsClosed_eq_some_iff hfree).2 ⟨hiv, hstop⟩⟩

theorem at?_eq_none_iff (h : day.intervals.Separate) :
    day.at? minute = none ↔
      ∀ iv ∈ day.intervals, iv.contains minute = false ∧ iv.stop ≠ minute := by
  rw [Option.eq_none_iff_forall_ne_some]
  constructor
  · intro hnone
    have hfree : ∀ x ∈ day.intervals, x.contains minute = false := by
      intro x hx
      rw [← Bool.not_eq_true]
      intro hm
      exact hnone x ((at?_eq_some_iff h).2 ⟨hx, Or.inl hm⟩)
    intro iv hiv
    refine ⟨hfree iv hiv, fun hstop => ?_⟩
    exact hnone iv ((at?_eq_some_iff h).2 ⟨hiv, Or.inr ⟨hstop, hfree⟩⟩)
  · intro hall iv hat
    obtain ⟨hiv, hm | ⟨hstop, _⟩⟩ := (at?_eq_some_iff h).1 hat
    · rw [(hall iv hiv).1] at hm
      exact Bool.false_ne_true hm
    · exact (hall iv hiv).2 hstop

/-- The order in which the intervals are listed does not matter to either question. -/
theorem lookup_of_perm (h : day.intervals.Separate) {list : Timeline}
    (hp : list.Perm day.intervals) (minute : Nat) :
    ({ day with intervals := list } : DayPlan).at? minute = day.at? minute ∧
      ({ day with intervals := list } : DayPlan).inForce? minute = day.inForce? minute := by
  have hother : ({ day with intervals := list } : DayPlan).intervals.Separate := h.of_perm hp
  constructor
  · ext iv
    rw [at?_eq_some_iff hother, at?_eq_some_iff h]
    simp only [hp.mem_iff]
  · ext iv
    unfold inForce?
    rw [Timeline.covering?_eq_some_iff hother.apart, Timeline.covering?_eq_some_iff h.apart,
      hp.mem_iff]

/-- The two questions have different answers only where an interval ends and no other one starts. -/
theorem at?_ne_inForce?_iff (h : day.intervals.Separate) :
    day.at? minute ≠ day.inForce? minute ↔
      (∃ iv ∈ day.intervals, iv.stop = minute) ∧
        ∀ x ∈ day.intervals, x.contains minute = false := by
  cases hforce : day.inForce? minute with
  | some iv =>
      have hat : day.at? minute = some iv := by
        unfold at?
        rw [hforce, Option.some_or]
      obtain ⟨hiv, hm⟩ := (Timeline.covering?_eq_some_iff h.apart).1 hforce
      refine iff_of_false (not_not_intro hat) fun hgiven => ?_
      rw [hgiven.2 iv hiv] at hm
      exact Bool.false_ne_true hm
  | none =>
      have hfree := Timeline.covering?_eq_none_iff.1 hforce
      rw [and_iff_left hfree, Ne, at?_eq_none_iff h]
      constructor
      · intro hsome
        by_contra hnone
        exact hsome fun iv hiv => ⟨hfree iv hiv, fun hstop => hnone ⟨iv, hiv, hstop⟩⟩
      · intro hends hall
        obtain ⟨iv, hiv, hstop⟩ := hends
        exact (hall iv hiv).2 hstop

/--
**What a day has at a minute is told without regard to order.**

After any run of operations on an empty day, one interval at most has a given minute and one at
most ends there. At the minute is the interval that has it; where there is none, the one that ends
there; and where there is none either, nothing. Listed in any other order, the intervals give the
same answers. What is in force from the minute on is something else exactly where an interval ends
and none has the minute.
-/
theorem at?_unambiguous (d : Date) (done : List Operation) (minute : Nat) :
    let day := done.foldl perform { date := d }
    day.intervals.countP (·.contains minute) ≤ 1 ∧
      day.intervals.countP (·.stop == minute) ≤ 1 ∧
      (∀ iv, day.at? minute = some iv ↔ iv ∈ day.intervals ∧
        (iv.contains minute = true ∨
          iv.stop = minute ∧ ∀ x ∈ day.intervals, x.contains minute = false)) ∧
      (day.at? minute = none ↔
        ∀ iv ∈ day.intervals, iv.contains minute = false ∧ iv.stop ≠ minute) ∧
      (∀ list : Timeline, list.Perm day.intervals →
        ({ day with intervals := list } : DayPlan).at? minute = day.at? minute ∧
          ({ day with intervals := list } : DayPlan).inForce? minute = day.inForce? minute) ∧
      (day.at? minute ≠ day.inForce? minute ↔
        (∃ iv ∈ day.intervals, iv.stop = minute) ∧
          ∀ x ∈ day.intervals, x.contains minute = false) := by
  intro day
  have htidy : day.intervals.Tidy := (tidy_foldl_perform (tidy_empty d) done).intervals
  have hseparate := htidy.separate
  refine ⟨Timeline.countP_contains_le_one htidy minute, Timeline.countP_stop_le_one htidy minute,
    ?_, at?_eq_none_iff hseparate, ?_, at?_ne_inForce?_iff hseparate⟩
  · intro iv
    exact at?_eq_some_iff hseparate
  · intro list hp
    exact lookup_of_perm hseparate hp minute

/--
The night line laid over the late opening: at 01:00 one interval ends and the next one starts, at
03:00 one ends with nothing after it. Read backwards the list gives the same answers.
-/
theorem at?_unambiguous_nightLine :
    let day := [lateOpening, nightLine, .settle].foldl perform
      { date := ⟨738340, by decide, by decide⟩ }
    (day.at? 60).map Interval.span = some (60, 90) ∧
      (day.at? 180).map Interval.span = some (90, 180) ∧ day.inForce? 180 = none ∧
      ({ day with intervals := day.intervals.reverse } : DayPlan).at? 180 = day.at? 180 := by
  intro day
  obtain ⟨_, _, _, _, horder, hdiffer⟩ := at?_unambiguous ⟨738340, by decide, by decide⟩
    [lateOpening, nightLine, .settle] 180
  have hends : (day.at? 180).map Interval.span = some (90, 180) := by decide +kernel
  have hnone : day.inForce? 180 = none := by
    refine Timeline.covering?_eq_none_iff.2 (hdiffer.1 ?_).2
    decide +kernel
  exact ⟨by decide +kernel, hends, hnone, (horder _ (List.reverse_perm _)).1⟩

end DayPlan

end OpeningHours
