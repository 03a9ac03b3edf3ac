import OpeningHours.Proofs.DayPlan
import OpeningHours.Proofs.Machine.Days

/-!
# A day keeps its form through everything that is done to it

Three things are done to the plan of a day: a rule is taken in, with whatever spans of minutes;
intervals are lined up that the day before hands on; and what is lined up is laid over the day. In
practice they come in this order, but the form of the plan does not depend on it. After any of
them, in any order and number, both timelines of the day are tidy, though the spans may run
backwards or past the second midnight and the intervals in line may overlap or be empty.

What is in line wins, the last of it first. Laying one more interval over a timeline can only cut
the pieces that are there, so the last interval that has a minute has a piece left around it.
-/

namespace OpeningHours

/-- An interval that is left of another one, or is that one itself. -/
structure Interval.IsPieceOf (p iv : Interval) : Prop where
  label : p.label = iv.label
  start : iv.start ≤ p.start
  stop : p.stop ≤ iv.stop

theorem Interval.IsPieceOf.trans {p q iv : Interval} (h : p.IsPieceOf q) (h' : q.IsPieceOf iv) :
    p.IsPieceOf iv :=
  ⟨h.label.trans h'.label, Nat.le_trans h'.start h.start, Nat.le_trans h.stop h'.stop⟩

namespace Timeline

variable {list : Timeline} {iv p : Interval} {minute : Nat}

/-- What is laid over a timeline leaves a piece around each minute that it does not have. -/
theorem exists_piece_foldl_layOver {new : List Interval} (hp : p ∈ list)
    (hm : p.contains minute = true) (hnew : ∀ x ∈ new, x.contains minute = false) :
    ∃ q ∈ new.foldl layOver list, q.contains minute = true ∧ q.IsPieceOf p := by
  induction new generalizing list p with
  | nil => exact ⟨p, hp, hm, rfl, Nat.le_refl _, Nat.le_refl _⟩
  | cons head rest ih =>
      obtain ⟨hhead, hrest⟩ := List.forall_mem_cons.1 hnew
      obtain ⟨q, hq, hqm⟩ := Interval.exists_mem_minus_contains.2 ⟨hm, hhead⟩
      obtain ⟨hlabel, hstart, hstop, _⟩ := Interval.bounds_of_mem_minus hq
      have hmem : q ∈ list.layOver head := mem_layOver.2 (Or.inl (mem_without.2 ⟨p, hp, hq⟩))
      obtain ⟨last, hlast, hlastm, hpiece⟩ := ih hmem hqm hrest
      exact ⟨last, hlast, hlastm, hpiece.trans ⟨hlabel, hstart, hstop⟩⟩

/-- Of the intervals that have a minute there is a last one. -/
theorem exists_last_contains {line : List Interval} (h : ∃ x ∈ line, x.contains minute = true) :
    ∃ earlier iv later, line = earlier ++ iv :: later ∧ iv.contains minute = true ∧
      ∀ x ∈ later, x.contains minute = false := by
  induction line with
  | nil =>
      obtain ⟨x, hx, _⟩ := h
      exact absurd hx List.not_mem_nil
  | cons head rest ih =>
      by_cases hrest : ∃ x ∈ rest, x.contains minute = true
      · obtain ⟨earlier, iv, later, rfl, hm, hlater⟩ := ih hrest
        exact ⟨head :: earlier, iv, later, rfl, hm, hlater⟩
      · have hnone : ∀ x ∈ rest, x.contains minute = false := fun x hx =>
          Bool.not_eq_true _ ▸ fun hxm => hrest ⟨x, hx, hxm⟩
        obtain ⟨x, hx, hxm⟩ := h
        rcases List.mem_cons.1 hx with rfl | hx
        · exact ⟨[], x, rest, rfl, hxm, hnone⟩
        · exact absurd ⟨x, hx, hxm⟩ hrest

end Timeline

namespace DayPlan

/-- What can be done to the plan of a day. -/
inductive Operation where
  /-- A rule is taken in with some spans of minutes. -/
  | takeIn (r : Rule) (spans : List MinuteSpan)
  /-- Intervals that the day before hands on are lined up. -/
  | receive (ivs : List Interval)
  /-- What is lined up is laid over the day. -/
  | settle

/-- What becomes of the plan of a day. -/
def perform (day : DayPlan) : Operation → DayPlan
  | .takeIn r spans => day.takeIn r spans
  | .receive ivs => day.receive ivs
  | .settle => day.settle

variable {day : DayPlan} {minute : Nat}

/-! ## One operation, and a run of them -/

theorem tidy_perform (h : day.Tidy) (op : Operation) : (day.perform op).Tidy := by
  cases op with
  | takeIn r spans => exact tidy_takeIn h r spans
  | receive ivs => exact ⟨h.intervals, h.outgoing⟩
  | settle => exact tidy_settle h

theorem tidy_foldl_perform (h : day.Tidy) (ops : List Operation) : (ops.foldl perform day).Tidy := by
  induction ops generalizing day with
  | nil => exact h
  | cons op rest ih => exact ih (tidy_perform h op)

/-- What is in force at a minute once a day is settled is left of the last interval in line that has it. -/
theorem exists_inForce?_settle (h : day.Tidy) {earlier later : List Interval} {iv : Interval}
    (hline : day.incoming = earlier ++ iv :: later) (hm : iv.contains minute = true)
    (hlater : ∀ x ∈ later, x.contains minute = false) :
    ∃ p, day.settle.inForce? minute = some p ∧ p.IsPieceOf iv := by
  have hlt := Interval.contains_iff.1 hm
  have hlaid : iv ∈ (earlier.foldl Timeline.layOver day.intervals).layOver iv :=
    Timeline.mem_layOver.2 (Or.inr ⟨rfl, by omega⟩)
  obtain ⟨p, hp, hpm, hpiece⟩ := Timeline.exists_piece_foldl_layOver hlaid hm hlater
  refine ⟨p, ?_, hpiece⟩
  have hsettled : day.settle.intervals =
      later.foldl Timeline.layOver ((earlier.foldl Timeline.layOver day.intervals).layOver iv) := by
    rw [settle, hline, List.foldl_append, List.foldl_cons]
  refine (Timeline.covering?_eq_some_iff (tidy_settle h).intervals.pairwise_apart).2 ⟨?_, hpm⟩
  rw [hsettled]
  exact hp

/--
**A day keeps its form through everything that is done to it.**

After any run of operations on an empty day, and one more of them, the intervals of the day and
those it hands on have minutes, lie inside the day and come one after the other. Taking a rule in
leaves what is in line, and comes to an interval for every span without a breach of bounds. Lining
up leaves both timelines. Settling empties the line and leaves what is handed on; a minute that
the line has is in force as a piece of the last interval in line that has it, and every other
minute keeps what was said of it.
-/
theorem perform_keeps_form (d : Date) (done : List Operation) (op : Operation) :
    let before := done.foldl perform { date := d }
    let after := before.perform op
    (∀ list ∈ [after.intervals, after.outgoing],
      (∀ iv ∈ list, iv.start < iv.stop ∧ iv.stop ≤ minutesPerDay) ∧
        list.Pairwise fun a b => a.start < b.start ∧ a.stop ≤ b.start) ∧
    match op with
    | .takeIn r spans =>
      after.incoming = before.incoming ∧ Machine.takeIn before r spans = .ok after
    | .receive ivs =>
      after.intervals = before.intervals ∧ after.outgoing = before.outgoing ∧
        after.incoming = before.incoming ++ ivs
    | .settle =>
      after.incoming = [] ∧ after.outgoing = before.outgoing ∧
        ∀ minute, if ∃ x ∈ before.incoming, x.contains minute = true then
          ∃ earlier last later, before.incoming = earlier ++ last :: later ∧
            last.contains minute = true ∧ (∀ x ∈ later, x.contains minute = false) ∧
            ∃ p, after.inForce? minute = some p ∧ p.IsPieceOf last
        else after.intervals.labelAt minute = before.intervals.labelAt minute := by
  intro before after
  have hbefore : before.Tidy := tidy_foldl_perform (tidy_empty d) done
  have hafter : after.Tidy := tidy_perform hbefore op
  refine ⟨?_, ?_⟩
  · intro list hlist
    have htidy : list.Tidy := by
      simp only [List.mem_cons, List.not_mem_nil, or_false] at hlist
      rcases hlist with rfl | rfl
      · exact hafter.intervals
      · exact hafter.outgoing
    refine ⟨fun iv hiv => ⟨htidy.minutes iv hiv, iv.stop_le_day⟩, ?_⟩
    refine htidy.ordered.imp_of_mem fun {a b} ha _ hab => ⟨?_, hab⟩
    exact Nat.lt_of_lt_of_le (htidy.minutes a ha) hab
  · cases op with
    | takeIn r spans => exact ⟨rfl, Machine.takeIn_eq before r spans⟩
    | receive ivs => exact ⟨rfl, rfl, rfl⟩
    | settle =>
        refine ⟨rfl, rfl, fun minute => ?_⟩
        split
        · rename_i hline
          obtain ⟨earlier, last, later, hsplit, hm, hlater⟩ := Timeline.exists_last_contains hline
          exact ⟨earlier, last, later, hsplit, hm, hlater,
            exists_inForce?_settle hbefore hsplit hm hlater⟩
        · rename_i hfree
          have hnone : Timeline.labelAt before.incoming.reverse minute = none := by
            refine Timeline.labelAt_eq_none_iff.2 fun x hx => ?_
            rw [← Bool.not_eq_true]
            exact fun hxm => hfree ⟨x, List.mem_reverse.1 hx, hxm⟩
          rw [show after = before.settle from rfl, labelAt_intervals_settle hbefore, hnone,
            Option.none_or]

/-- Open from 22:00, over spans of which one runs backwards and one lies past the second midnight. -/
def lateOpening : Operation :=
  .takeIn { id := ⟨"late"⟩ } [⟨1320, 1560⟩, ⟨900, 600⟩, ⟨3000, 4000⟩]

/-- Closed for two hours, unknown for the second of them and one more, and a moment without minutes. -/
def nightLine : Operation :=
  .receive [⟨0, 120, ⟨.closed, none, false, none⟩, by decide, by decide, by decide⟩,
    ⟨60, 180, ⟨.unknown, none, false, none⟩, by decide, by decide, by decide⟩,
    ⟨90, 90, ⟨.opened, none, false, none⟩, by decide, by decide, by decide⟩]

/-- At 01:30 the second interval of the line is in force, cut in two by the one without minutes. -/
theorem perform_keeps_form_nightLine :
    let before := [lateOpening, nightLine].foldl perform { date := ⟨738336, by decide, by decide⟩ }
    before.settle.intervals.map Interval.span = [(0, 60), (60, 90), (90, 180), (1320, 1440)] ∧
      before.settle.outgoing.map Interval.span = [(0, 120)] ∧
      ∃ p, before.settle.inForce? 90 = some p ∧ p.span = (90, 180) ∧
        ∃ last ∈ before.incoming, last.contains 90 = true ∧ p.IsPieceOf last := by
  intro before
  obtain ⟨_, _, _, hminute⟩ :=
    perform_keeps_form ⟨738336, by decide, by decide⟩ [lateOpening, nightLine] .settle
  have hline := hminute 90
  rw [if_pos (by decide)] at hline
  obtain ⟨earlier, last, later, hsplit, hm, _, p, hp, hpiece⟩ := hline
  refine ⟨by decide +kernel, by decide +kernel, p, hp, ?_, last, ?_, hm, hpiece⟩
  · have hspan : (before.settle.inForce? 90).map Interval.span = some (90, 180) := by decide +kernel
    rw [show before.settle.inForce? 90 = some p from hp] at hspan
    exact Option.some.inj hspan
  · show last ∈ before.incoming
    rw [show before.incoming = earlier ++ last :: later from hsplit]
    exact List.mem_append_right earlier List.mem_cons_self

end DayPlan

end OpeningHours
