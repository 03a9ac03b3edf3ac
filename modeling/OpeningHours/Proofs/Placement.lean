import OpeningHours.Proofs.Join
import OpeningHours.Proofs.Overlap

/-!
# Two intervals seen from either of them

How the first of two intervals lies to the second is found by tests that come one after the other,
so at ends that the two share an earlier test decides, and what no test has caught stops in the
second. All the same each placement is given on one condition of the ends. The five conditions
exclude each other, and one of them always holds, for an interval without minutes as for any other.

Seen from the second interval the conditions are the same with the names of the placements changed.
Only intervals with the same ends are an exception: either lies within the other, and neither
around it. What the two have in common does not depend on whose side it is seen from.
-/

namespace OpeningHours

namespace Placement

/-- What a placement says of the ends of two intervals. -/
def Holds : Placement → Interval → Interval → Prop
  | apart, a, b => b.stop < a.start ∨ a.stop < b.start
  | within, a, b => b.start ≤ a.start ∧ a.stop ≤ b.stop
  | around, a, b => a.start ≤ b.start ∧ b.stop ≤ a.stop ∧ a.span ≠ b.span
  | startsIn, a, b => b.start < a.start ∧ a.start ≤ b.stop ∧ b.stop < a.stop
  | stopsIn, a, b => a.start < b.start ∧ b.start ≤ a.stop ∧ a.stop < b.stop

instance (p : Placement) (a b : Interval) : Decidable (p.Holds a b) :=
  match p with
  | apart => inferInstanceAs (Decidable (_ ∨ _))
  | within => inferInstanceAs (Decidable (_ ∧ _))
  | around => inferInstanceAs (Decidable (_ ∧ _ ∧ _))
  | startsIn => inferInstanceAs (Decidable (_ ∧ _ ∧ _))
  | stopsIn => inferInstanceAs (Decidable (_ ∧ _ ∧ _))

/-- The placement of the second interval to the first, unless they have the same ends. -/
def reversed : Placement → Placement
  | apart => apart
  | within => around
  | around => within
  | startsIn => stopsIn
  | stopsIn => startsIn

variable {p q : Placement} {a b : Interval}

/-- Two intervals have one placement. -/
theorem Holds.unique (hp : p.Holds a b) (hq : q.Holds a b) : p = q := by
  have ha := a.start_le_stop
  have hb := b.start_le_stop
  -- of two different placements the one or the other does not fit the ends
  cases p <;> cases q <;>
    simp only [Holds, Interval.span, ne_eq, Prod.mk.injEq, reduceCtorEq] at hp hq ⊢ <;> omega

theorem Holds.reversed (hp : p.Holds a b) (hspan : a.span ≠ b.span) : p.reversed.Holds b a := by
  cases p with
  | apart => exact Or.symm hp
  | within => exact ⟨hp.1, hp.2, hspan.symm⟩
  | around => exact ⟨hp.1, hp.2.1⟩
  | startsIn => exact hp
  | stopsIn => exact hp

end Placement

namespace Interval

open Placement

variable {a b : Interval} {p : Placement}

theorem placement_holds (a b : Interval) : (a.placement b).Holds a b := by
  have hspec := placement_spec a b
  cases hp : a.placement b with
  | around =>
    rw [hp] at hspec
    refine ⟨hspec.1, hspec.2.1, fun hspan => ?_⟩
    simp only [span, Prod.mk.injEq] at hspan
    omega
  | _ =>
    rw [hp] at hspec
    exact hspec

/-- Each placement is given exactly on its condition. -/
theorem placement_eq_iff : a.placement b = p ↔ p.Holds a b := by
  constructor
  · intro hp
    rw [← hp]
    exact placement_holds a b
  · intro hholds
    exact (placement_holds a b).unique hholds

theorem placement_reversed (hspan : a.span ≠ b.span) :
    b.placement a = (a.placement b).reversed :=
  placement_eq_iff.2 ((placement_holds a b).reversed hspan)

theorem placement_of_span_eq (hspan : a.span = b.span) : a.placement b = .within := by
  simp only [span, Prod.mk.injEq] at hspan
  exact placement_eq_iff.2 ⟨Nat.le_of_eq hspan.1.symm, Nat.le_of_eq hspan.2⟩

theorem overlap?_comm (a b : Interval) : a.overlap? b = b.overlap? a := by
  rw [overlap?_eq, overlap?_eq, Nat.max_comm, Nat.min_comm]

/--
**How two intervals lie is seen alike from either of them.**

Each placement is given exactly on its condition of the ends. What the two have in common runs from
the later start to the earlier stop, if these come in order, and is the same from either side. They
lie apart from either side or from none. The first starts inside the second exactly when the second
stops inside the first. If their ends differ, the first lies within the second exactly when the
second lies around the first; if their ends are the same, either lies within the other.
-/
theorem placement_symm (a b : Interval) :
    (∀ p, a.placement b = p ↔ p.Holds a b) ∧
      (a.overlap? b =
        if max a.start b.start ≤ min a.stop b.stop then
          some (max a.start b.start, min a.stop b.stop)
        else none) ∧
      a.overlap? b = b.overlap? a ∧
      (a.placement b = .apart ↔ b.placement a = .apart) ∧
      (a.placement b = .startsIn ↔ b.placement a = .stopsIn) ∧
      (a.span ≠ b.span → (a.placement b = .within ↔ b.placement a = .around)) ∧
      (a.span = b.span → a.placement b = .within ∧ b.placement a = .within) := by
  refine ⟨fun p => placement_eq_iff, overlap?_eq a b, overlap?_comm a b, ?_, ?_, ?_, ?_⟩
  · rw [placement_eq_iff, placement_eq_iff]
    exact or_comm
  · rw [placement_eq_iff, placement_eq_iff]
    exact Iff.rfl
  · intro hspan
    rw [placement_reversed hspan]
    cases a.placement b <;> simp [reversed]
  · intro hspan
    exact ⟨placement_of_span_eq hspan, placement_of_span_eq hspan.symm⟩

/-- A sign at the door that shows when the lunch hour starts, and no minute after it. -/
def doorSign : Interval :=
  ⟨bakeryLunch.start, bakeryLunch.start, { status := .unknown }, Nat.le_refl _,
    Nat.le_of_lt bakeryLunch.start_lt_day, bakeryLunch.start_lt_day⟩

/--
The sign has no minute and stands where the bakery's morning ends and its lunch hour starts. It
lies within both, on the last point of the one and on the first of the other, and both lie around
it, though it shares no minute with either.
-/
theorem placement_symm_doorSign :
    doorSign.placement bakeryMorning = .within ∧ bakeryMorning.placement doorSign = .around ∧
      doorSign.placement bakeryLunch = .within ∧ bakeryLunch.placement doorSign = .around ∧
      bakeryLunch.overlap? doorSign = some (735, 735) ∧
      doorSign.placement doorSign = .within := by
  obtain ⟨hholds, _, _, _, _, hdiffer, _⟩ := placement_symm doorSign bakeryMorning
  obtain ⟨hholds', hshared, hcomm, _, _, hdiffer', _⟩ := placement_symm doorSign bakeryLunch
  obtain ⟨_, _, _, _, _, _, hself⟩ := placement_symm doorSign doorSign
  have hmorning : doorSign.placement bakeryMorning = .within := (hholds .within).2 (by decide)
  have hlunch : doorSign.placement bakeryLunch = .within := (hholds' .within).2 (by decide)
  exact ⟨hmorning, (hdiffer (by decide)).1 hmorning, hlunch, (hdiffer' (by decide)).1 hlunch,
    hcomm.symm.trans hshared, (hself rfl).1⟩

end Interval

end OpeningHours
