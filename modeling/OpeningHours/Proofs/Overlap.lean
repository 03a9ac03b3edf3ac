import OpeningHours.Proofs.Interval
import Mathlib.Algebra.GroupWithZero.Nat

/-!
# What two intervals share and what is left beside it

What two intervals have in common runs from the later start to the earlier stop, however they
are placed. What is left of the first is the rest of it: the pieces beside the common part have
just the minutes that the second one lacks, and their lengths and that of the common part add up.

The ends of the pieces are taken over from the two intervals by the placement, and nothing checks
them where they are put together. That they are ends of intervals all the same follows from what
each placement says of the ends.
-/

namespace OpeningHours.Interval

/-- The number of minutes of an interval. -/
def length (iv : Interval) : Nat := iv.stop - iv.start

/-- The number of minutes that two intervals have in common. -/
def shared (a b : Interval) : Nat := (a.overlap? b).elim 0 fun ends => ends.2 - ends.1

/-- The ends of what is left of one interval beside another, as the placement gives them. -/
def endsBeside (a b : Interval) : List (Nat × Nat) :=
  match a.placement b with
  | .apart => [a.span]
  | .within => []
  | .around => [(a.start, b.start), (b.stop, a.stop)].filter fun ends => ends.1 != ends.2
  | .startsIn => [(b.stop, a.stop)].filter fun ends => ends.1 != ends.2
  | .stopsIn => [(a.start, b.start)].filter fun ends => ends.1 != ends.2

/-! ## What they share -/

/-- Two intervals share what lies between the later start and the earlier stop. -/
theorem overlap?_eq (a b : Interval) :
    a.overlap? b =
      if max a.start b.start ≤ min a.stop b.stop then
        some (max a.start b.start, min a.stop b.stop)
      else none := by
  have ha := a.start_le_stop
  have hb := b.start_le_stop
  have hspec := placement_spec a b
  unfold overlap?
  cases hp : a.placement b with
  | apart =>
    rw [hp] at hspec
    dsimp only at hspec ⊢
    rw [if_neg (by omega)]
  | within =>
    rw [hp] at hspec
    dsimp only at hspec ⊢
    rw [if_pos (by omega), Nat.max_eq_left hspec.1, Nat.min_eq_left hspec.2]
    rfl
  | around =>
    rw [hp] at hspec
    dsimp only at hspec ⊢
    rw [if_pos (by omega), Nat.max_eq_right hspec.1, Nat.min_eq_right hspec.2.1]
    rfl
  | startsIn =>
    rw [hp] at hspec
    dsimp only at hspec ⊢
    rw [if_pos (by omega), Nat.max_eq_left (by omega), Nat.min_eq_right (by omega)]
  | stopsIn =>
    rw [hp] at hspec
    dsimp only at hspec ⊢
    rw [if_pos (by omega), Nat.max_eq_right (by omega), Nat.min_eq_left (by omega)]

theorem shared_eq (a b : Interval) :
    a.shared b = min a.stop b.stop - max a.start b.start := by
  unfold shared
  rw [overlap?_eq]
  split
  · rfl
  · rw [Option.elim_none]
    omega

/-! ## What is left -/

variable {a b : Interval} {start stop minute : Nat}

/-- Ends that come in order are the ends of a piece unless they are equal. -/
theorem map_span_piece? (iv : Interval) (hle : start ≤ stop) (hday : stop ≤ 1440) :
    (iv.piece? start stop).toList.map span = [(start, stop)].filter fun ends => ends.1 != ends.2 := by
  rcases Nat.eq_or_lt_of_le hle with rfl | hlt
  · rw [piece?_eq_none (Nat.le_refl _), List.filter_cons_of_neg (by simp)]
    rfl
  · unfold piece?
    rw [dif_pos ⟨hlt, hday⟩, List.filter_cons_of_pos (by simp only [bne_iff_ne]; omega)]
    rfl

/-- The pieces have the ends that the placement gives: none of them fails to be an interval. -/
theorem map_span_minus (a b : Interval) : (a.minus b).map span = a.endsBeside b := by
  have ha := a.stop_le_day
  have hb := Nat.le_of_lt b.start_lt_day
  have hspec := placement_spec a b
  unfold minus endsBeside
  cases hp : a.placement b with
  | apart => rfl
  | within => rfl
  | around =>
    rw [hp] at hspec
    dsimp only at hspec ⊢
    rw [List.map_append, map_span_piece? a hspec.1 hb, map_span_piece? a hspec.2.1 ha,
      ← List.filter_append]
    rfl
  | startsIn =>
    rw [hp] at hspec
    exact map_span_piece? a (Nat.le_of_lt hspec.2.2) ha
  | stopsIn =>
    rw [hp] at hspec
    exact map_span_piece? a (Nat.le_of_lt hspec.1) hb

theorem countP_piece? (iv : Interval) (hday : stop ≤ 1440) :
    (iv.piece? start stop).toList.countP (·.contains minute) =
      if start ≤ minute ∧ minute < stop then 1 else 0 := by
  unfold piece?
  split
  · rw [Option.toList_some, List.countP_singleton]
    simp only [contains_iff]
  · rw [if_neg (by omega)]
    rfl

theorem sum_length_piece? (iv : Interval) (hday : stop ≤ 1440) :
    ((iv.piece? start stop).toList.map length).sum = stop - start := by
  unfold piece?
  split
  · exact Nat.add_zero _
  · show 0 = stop - start
    omega

/-- A minute lies in one piece if the first interval has it and the second does not, else in none. -/
theorem countP_minus (a b : Interval) (minute : Nat) :
    (a.minus b).countP (·.contains minute) =
      if a.contains minute ∧ ¬b.contains minute then 1 else 0 := by
  have hb := b.start_le_stop
  have ha := a.stop_le_day
  simp only [contains_iff]
  rcases Nat.eq_or_lt_of_le a.start_le_stop with heq | hlt
  · have hnone : ¬(a.start ≤ minute ∧ minute < a.stop) := by omega
    rw [if_neg (mt And.left hnone), minus_of_no_minute heq]
    split
    · rw [List.countP_singleton, if_neg (mt contains_iff.1 hnone)]
    · rfl
  · rw [minus_eq hlt, List.countP_append, countP_piece? a (by omega), countP_piece? a ha]
    -- the two pieces lie on either side of `b`
    split <;> split <;> split <;> omega

theorem sum_length_minus (a b : Interval) :
    ((a.minus b).map length).sum + a.shared b = a.length := by
  have ha := a.stop_le_day
  have hb := b.start_le_stop
  rw [shared_eq]
  rcases Nat.eq_or_lt_of_le a.start_le_stop with heq | hlt
  · have hnone : a.length = 0 := Nat.sub_eq_zero_of_le (Nat.le_of_eq heq.symm)
    rw [minus_of_no_minute heq, hnone]
    split
    · rw [List.map_singleton, List.sum_singleton, hnone]
      omega
    · show 0 + _ = 0
      omega
  · rw [minus_eq hlt, List.map_append, List.sum_append, sum_length_piece? a (by omega),
      sum_length_piece? a ha]
    unfold length
    omega

theorem length_minus_le (a b : Interval) : (a.minus b).length ≤ 2 := by
  rw [← List.length_map span, map_span_minus]
  unfold endsBeside
  split
  · exact Nat.le_succ 1
  · exact Nat.zero_le 2
  all_goals exact Nat.le_trans (List.length_filter_le _ _) (by simp)

/--
**Taking one interval out of another is a partition.**

At most two pieces are left, the earlier one first. Their ends are those that the placement
gives, and they are ends of intervals; their label is that of the interval they are left of. A
minute lies in one piece exactly when the interval has it and the other does not, and in none
otherwise. Of an interval with minutes every piece has minutes, and the lengths of the pieces and
of what the two intervals share add up to its own.
-/
theorem minus_partition (a b : Interval) :
    let pieces := a.minus b
    pieces.length ≤ 2 ∧
      (pieces.Pairwise fun p q => p.start < q.start ∧ p.stop ≤ q.start) ∧
      pieces.map span = a.endsBeside b ∧
      (∀ p ∈ pieces, p.start ≤ p.stop ∧ p.stop ≤ minutesPerDay ∧ p.start < minutesPerDay ∧
        p.label = a.label) ∧
      (∀ minute, pieces.countP (·.contains minute) =
        if a.contains minute ∧ ¬b.contains minute then 1 else 0) ∧
      (a.start < a.stop → ∀ p ∈ pieces, p.start < p.stop) ∧
      (pieces.map length).sum + a.shared b = a.length := by
  intro pieces
  refine ⟨length_minus_le a b, ?_, map_span_minus a b, ?_, countP_minus a b, ?_,
    sum_length_minus a b⟩
  · rcases Nat.eq_or_lt_of_le a.start_le_stop with heq | hlt
    · -- of an interval without minutes there is one piece at most
      show (a.minus b).Pairwise _
      rw [minus_of_no_minute heq]
      split
      · exact List.pairwise_singleton _ _
      · exact List.Pairwise.nil
    · refine List.Pairwise.imp_of_mem ?_ (pairwise_minus (a := a) (b := b))
      intro p q hp _ hpq
      exact ⟨Nat.lt_of_lt_of_le (lt_of_mem_minus hlt hp) hpq, hpq⟩
  · intro p hp
    exact ⟨p.start_le_stop, p.stop_le_day, p.start_lt_day, (bounds_of_mem_minus hp).1⟩
  · intro hlt p hp
    exact lt_of_mem_minus hlt hp

end OpeningHours.Interval
