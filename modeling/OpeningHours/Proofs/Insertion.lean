import OpeningHours.Proofs.Timeline

/-!
# What a run of insertions writes

A timeline is made by putting intervals into it one after the other, each over what is there or
under it. What comes of it stands for a map from minutes to labels. In terms of the map the two
insertions are assignments: over writes to every minute of the interval, under writes to those
alone that nothing has been written to.

One insertion keeps the timeline tidy and does the assignment to its map; by induction so does
every run of them. A run may hold intervals without minutes: they write nothing, and no trace of
them is left in the list.
-/

namespace OpeningHours

/-- An interval to be put into a timeline. -/
inductive Insertion where
  /-- Over what is there, which is cut where they overlap. -/
  | layOver (iv : Interval)
  /-- Under what is there, into the gaps alone. -/
  | layUnder (iv : Interval)
  deriving DecidableEq

namespace Insertion

/-- What becomes of a timeline. -/
def into (list : Timeline) : Insertion → Timeline
  | layOver iv => list.layOver iv
  | layUnder iv => list.layUnder iv

/-- What becomes of a map from minutes to labels. -/
def write (map : Nat → Option Label) (i : Insertion) (minute : Nat) : Option Label :=
  match i with
  | layOver iv => if iv.contains minute then some iv.label else map minute
  | layUnder iv => if iv.contains minute ∧ map minute = none then some iv.label else map minute

variable {list : Timeline}

/-! ## One insertion -/

theorem tidy_into (h : list.Tidy) (i : Insertion) : (i.into list).Tidy := by
  cases i with
  | layOver iv => exact Timeline.tidy_layOver h iv
  | layUnder iv => exact Timeline.tidy_layUnder h iv

theorem labelAt_into (h : list.Tidy) (i : Insertion) :
    (i.into list).labelAt = i.write list.labelAt := by
  funext minute
  cases i with
  | layOver iv => exact Timeline.labelAt_layOver h iv minute
  | layUnder iv =>
      refine (Timeline.labelAt_layUnder h iv minute).trans ?_
      unfold write
      cases list.labelAt minute with
      | none => simp only [Option.none_or, and_true]
      | some label => simp only [Option.some_or, reduceCtorEq, and_false, if_false]

/-! ## A run of insertions -/

theorem tidy_foldl_into (h : list.Tidy) (run : List Insertion) : (run.foldl into list).Tidy := by
  induction run generalizing list with
  | nil => exact h
  | cons i rest ih => exact ih (tidy_into h i)

theorem labelAt_foldl_into (h : list.Tidy) (run : List Insertion) :
    (run.foldl into list).labelAt = run.foldl write list.labelAt := by
  induction run generalizing list with
  | nil => rfl
  | cons i rest ih =>
      rw [List.foldl_cons, List.foldl_cons, ih (tidy_into h i), labelAt_into h i]

/--
**A timeline is the map that its insertions write.**

After any run of insertions into the empty timeline every interval has minutes and lies inside
the day, each stops before the next one starts, and a label stands on a minute of one of them
exactly where the map written by the run has it.
-/
theorem foldl_into_eq_written (run : List Insertion) :
    let list := run.foldl into []
    (∀ iv ∈ list, iv.start < iv.stop ∧ iv.stop ≤ minutesPerDay) ∧
      list.Pairwise (fun a b => a.stop ≤ b.start) ∧
      ∀ minute label, (∃ iv ∈ list, iv.contains minute = true ∧ iv.label = label) ↔
        run.foldl write (fun _ => none) minute = some label := by
  intro list
  have htidy : list.Tidy := tidy_foldl_into Timeline.tidy_nil run
  refine ⟨?_, htidy.ordered, ?_⟩
  · intro iv hiv
    exact ⟨htidy.minutes iv hiv, iv.stop_le_day⟩
  · intro minute label
    rw [← Timeline.labelAt_eq_some_iff htidy.pairwise_apart]
    -- nothing has been written to the map of the empty timeline
    have hwritten : list.labelAt = run.foldl write (Timeline.labelAt []) :=
      labelAt_foldl_into Timeline.tidy_nil run
    rw [hwritten]
    exact Iff.rfl

end Insertion

end OpeningHours
