import Mathlib.Order.Bounds.Defs
import OpeningHours.Calendar.Date

/-!
# The nearest date on a day of the week

A shift to a day of the week walks from date to date until it comes to one on that day. How many
steps that takes follows from the two days of the week: it is a number from 1 to 7, and every step
that does not arrive makes it one less. So seven steps are enough, and the walk comes to that day
or to the end of the calendar.

The day is found by its number, whether the calendar has it or not. It is the nearest of all the
numbers on the day of the week, and of two dates the later one has the later number. A shift gives
the date with this number, so it is nearest too, keeps the order of dates, and fails only where the
calendar lacks it.
-/

namespace OpeningHours

/-! ## The days to go -/

namespace ShiftDirection

variable {direction : ShiftDirection} {target : Weekday} {number : Int}

/-- How many steps away the nearest day on a day of the week is. -/
def daysTo (direction : ShiftDirection) (target : Weekday) (number : Int) : Nat :=
  ((direction.step * (target.index - (number + 5)) - 1) % 7).toNat + 1

theorem daysTo_bounds (direction : ShiftDirection) (target : Weekday) (number : Int) :
    1 ≤ direction.daysTo target number ∧ direction.daysTo target number ≤ 7 := by
  unfold daysTo
  omega

theorem weekdayOf_daysTo (direction : ShiftDirection) (target : Weekday) (number : Int) :
    Civil.weekdayOf (number + direction.step * direction.daysTo target number) = target := by
  rw [Civil.weekdayOf_eq_iff]
  unfold daysTo
  cases direction <;> dsimp only [step] <;> omega

/-- Every day on the day of the week that lies ahead is as many steps away, or more. -/
theorem daysTo_le {m : Int} (hahead : 0 < direction.step * (m - number))
    (hday : Civil.weekdayOf m = target) :
    direction.daysTo target number ≤ direction.step * (m - number) := by
  rw [Civil.weekdayOf_eq_iff] at hday
  unfold daysTo
  cases direction <;> dsimp only [step] at hahead ⊢ <;> omega

theorem daysTo_eq_one_iff :
    direction.daysTo target number = 1 ↔ Civil.weekdayOf (number + direction.step) = target := by
  rw [Civil.weekdayOf_eq_iff]
  unfold daysTo
  cases direction <;> dsimp only [step] <;> omega

/-- A step that does not arrive leaves one step less to go. -/
theorem daysTo_step (h : Civil.weekdayOf (number + direction.step) ≠ target) :
    direction.daysTo target (number + direction.step) + 1 = direction.daysTo target number := by
  rw [ne_eq, Civil.weekdayOf_eq_iff] at h
  unfold daysTo
  cases direction <;> dsimp only [step] at h ⊢ <;> omega

/-- What is nearest to a later day is no earlier. -/
theorem add_daysTo_mono (direction : ShiftDirection) (target : Weekday) {a b : Int} (h : a ≤ b) :
    a + direction.step * direction.daysTo target a ≤
      b + direction.step * direction.daysTo target b := by
  unfold daysTo
  cases direction <;> dsimp only [step] <;> omega

theorem isLeast_daysTo (target : Weekday) (number : Int) :
    IsLeast {m | number < m ∧ Civil.weekdayOf m = target}
      (number + next.step * next.daysTo target number) := by
  have hbounds := next.daysTo_bounds target number
  refine ⟨⟨?_, next.weekdayOf_daysTo target number⟩, fun m hm => ?_⟩
  · dsimp only [step]
    omega
  · have hahead : 0 < next.step * (m - number) := by
      have := hm.1
      dsimp only [step]
      omega
    have hle := daysTo_le hahead hm.2
    dsimp only [step] at hle ⊢
    omega

theorem isGreatest_daysTo (target : Weekday) (number : Int) :
    IsGreatest {m | m < number ∧ Civil.weekdayOf m = target}
      (number + previous.step * previous.daysTo target number) := by
  have hbounds := previous.daysTo_bounds target number
  refine ⟨⟨?_, previous.weekdayOf_daysTo target number⟩, fun m hm => ?_⟩
  · dsimp only [step]
    omega
  · have hahead : 0 < previous.step * (m - number) := by
      have := hm.1
      dsimp only [step]
      omega
    have hle := daysTo_le hahead hm.2
    dsimp only [step] at hle ⊢
    omega

end ShiftDirection

/-! ## The walk -/

namespace Date

variable {d e : Date} {target : Weekday} {direction : ShiftDirection}

/-- Where one step leaves the calendar, more steps do so too. -/
theorem add?_eq_none_of_step {n : Nat} (h : d.add? direction.step = none) (hn : 1 ≤ n) :
    d.add? (direction.step * n) = none := by
  refine Option.eq_none_iff_forall_ne_some.2 fun e he => ?_
  have hnumber := add?_eq_some_iff.1 he
  have hfirst := e.first_le
  have hlast := e.le_last
  have hfirst' := d.first_le
  have hlast' := d.le_last
  obtain ⟨_, hstep⟩ : ∃ f, d.add? direction.step = some f := by
    apply exists_add?
    cases direction <;> dsimp only [ShiftDirection.step] at hnumber ⊢ <;> omega
  cases h.symm.trans hstep

theorem add?_add?_of_eq_some {days more : Int} (h : d.add? days = some e) :
    e.add? more = d.add? (days + more) := by
  unfold add?
  rw [add?_eq_some_iff.1 h, Int.add_assoc]

/--
A walk goes as far as its target, or as many steps as it may. It is stranded if the calendar ends
before that, and else it has arrived if it went as far as its target.
-/
theorem walkToWeekday_eq (d : Date) (target : Weekday) (direction : ShiftDirection) (steps : Nat) :
    d.walkToWeekday target direction steps =
      (d.add? (direction.step * (min steps (direction.daysTo target d.number) : Nat))).elim .stranded
        fun e => if direction.daysTo target d.number ≤ steps then .arrived e else .spent := by
  have hpos := (direction.daysTo_bounds target d.number).1
  -- over the steps that are left, from any date: what one step does to the days to go carries it
  induction steps generalizing d with
  | zero =>
      have hhere : d.add? 0 = some d := add?_eq_some_iff.2 (Int.add_zero d.number).symm
      rw [Nat.zero_min, Int.natCast_zero, Int.mul_zero, hhere, Option.elim_some,
        if_neg (by omega)]
      rfl
  | succ steps ih =>
      rw [walkToWeekday]
      cases he : d.add? direction.step with
      | none =>
          rw [add?_eq_none_of_step he (by omega)]
          rfl
      | some e =>
          have hnumber := add?_eq_some_iff.1 he
          have hweekday : e.weekday = Civil.weekdayOf (d.number + direction.step) :=
            congrArg Civil.weekdayOf hnumber
          dsimp only
          by_cases hday : e.weekday = target
          · have hone := ShiftDirection.daysTo_eq_one_iff.2 (hweekday.symm.trans hday)
            rw [if_pos hday, hone, Nat.min_eq_right (by omega), Int.natCast_one, Int.mul_one, he,
              Option.elim_some, if_pos (by omega)]
          · -- one step is done, and one less is to go
            have hless := ShiftDirection.daysTo_step (fun h => hday (hweekday.trans h))
            rw [← hnumber] at hless
            rw [if_neg hday, ih e (direction.daysTo_bounds target e.number).1, ← hless,
              Nat.add_min_add_right, add?_add?_of_eq_some he]
            simp only [Int.natCast_succ, Int.mul_add, Int.mul_one, Int.add_comm direction.step,
              Nat.add_le_add_iff_right]

/-- Seven steps are as many as it takes, whatever the day of the week. -/
theorem walkToWeekday_seven (d : Date) (target : Weekday) (direction : ShiftDirection) :
    d.walkToWeekday target direction 7 =
      (d.add? (direction.step * direction.daysTo target d.number)).elim .stranded .arrived := by
  have hle := (direction.daysTo_bounds target d.number).2
  rw [walkToWeekday_eq, Nat.min_eq_right hle]
  simp only [hle, if_true]

theorem walkToWeekday_seven_ne_spent (d : Date) (target : Weekday) (direction : ShiftDirection) :
    d.walkToWeekday target direction 7 ≠ .spent := by
  rw [walkToWeekday_seven]
  cases d.add? (direction.step * direction.daysTo target d.number) <;> simp

theorem nearestWeekday?_eq_add? (d : Date) (target : Weekday) (direction : ShiftDirection) :
    d.nearestWeekday? target direction =
      d.add? (direction.step * direction.daysTo target d.number) := by
  rw [nearestWeekday?, walkToWeekday_seven]
  cases d.add? (direction.step * direction.daysTo target d.number) <;> rfl

theorem nearestWeekday?_eq_some_iff : d.nearestWeekday? target direction = some e ↔
    e.number = d.number + direction.step * direction.daysTo target d.number := by
  rw [nearestWeekday?_eq_add?, add?_eq_some_iff]

theorem nearestWeekday?_eq_none_iff : d.nearestWeekday? target direction = none ↔
    ¬∃ e : Date, e.number = d.number + direction.step * direction.daysTo target d.number := by
  rw [nearestWeekday?_eq_add?, add?, ofNumber?_eq_none_iff]

theorem nearestWeekday?_bounds (h : d.nearestWeekday? target direction = some e) :
    match direction with
    | .next => d.number + 1 ≤ e.number ∧ e.number ≤ d.number + 7
    | .previous => d.number - 7 ≤ e.number ∧ e.number ≤ d.number - 1 := by
  have hnumber := nearestWeekday?_eq_some_iff.1 h
  have hbounds := direction.daysTo_bounds target d.number
  cases direction <;> dsimp only [ShiftDirection.step] at hnumber ⊢ <;> omega

theorem nearestWeekday?_mono {d' e' : Date} (hle : d ≤ d')
    (h : d.nearestWeekday? target direction = some e)
    (h' : d'.nearestWeekday? target direction = some e') : e ≤ e' := by
  rw [le_iff] at hle ⊢
  rw [nearestWeekday?_eq_some_iff.1 h, nearestWeekday?_eq_some_iff.1 h']
  exact direction.add_daysTo_mono target hle

/-- There is an answer wherever the calendar has a week on either side. -/
theorem exists_nearestWeekday? (h : -95745764 ≤ d.number - 7 ∧ d.number + 7 ≤ 95745764)
    (target : Weekday) (direction : ShiftDirection) :
    ∃ e, d.nearestWeekday? target direction = some e := by
  have hbounds := direction.daysTo_bounds target d.number
  rw [nearestWeekday?_eq_add?]
  apply exists_add?
  cases direction <;> dsimp only [ShiftDirection.step] <;> omega

/-! ## The nearest date -/

/-- The first date after another on a day of the week is the one with the first number after. -/
theorem isLeast_weekday_iff {n : Int}
    (h : IsLeast {m | d.number < m ∧ Civil.weekdayOf m = target} n) :
    IsLeast {f : Date | d < f ∧ f.weekday = target} e ↔ e.number = n := by
  obtain ⟨⟨hafter, hday⟩, hleast⟩ := h
  constructor
  · rintro ⟨⟨he, heday⟩, hfirst⟩
    have hle : n ≤ e.number := hleast ⟨he, heday⟩
    -- the calendar has no gaps, so a number between two dates is that of a date
    have hin : -95745764 ≤ n ∧ n ≤ 95745764 := by
      have := d.first_le
      have := e.le_last
      omega
    have hge : e.number ≤ n := hfirst (show (⟨n, hin.1, hin.2⟩ : Date) ∈ _ from ⟨hafter, hday⟩)
    omega
  · rintro rfl
    exact ⟨⟨hafter, hday⟩, fun f hf => hleast hf⟩

/-- The last date before another on a day of the week is the one with the last number before. -/
theorem isGreatest_weekday_iff {n : Int}
    (h : IsGreatest {m | m < d.number ∧ Civil.weekdayOf m = target} n) :
    IsGreatest {f : Date | f < d ∧ f.weekday = target} e ↔ e.number = n := by
  obtain ⟨⟨hbefore, hday⟩, hgreatest⟩ := h
  constructor
  · rintro ⟨⟨he, heday⟩, hlast⟩
    have hle : e.number ≤ n := hgreatest ⟨he, heday⟩
    have hin : -95745764 ≤ n ∧ n ≤ 95745764 := by
      have := e.first_le
      have := d.le_last
      omega
    have hge : n ≤ e.number := hlast (show (⟨n, hin.1, hin.2⟩ : Date) ∈ _ from ⟨hbefore, hday⟩)
    omega
  · rintro rfl
    exact ⟨⟨hbefore, hday⟩, fun f hf => hgreatest hf⟩

/--
**A shift to a day of the week is strict, nearest and monotone.**

Forward, the day it is to find is the first one after the date on that day of the week, 1 to 7 days
later; backward, the last one before, 1 to 7 days earlier. The shift gives the date with the number
of this day, and nothing only if the calendar has none. So it gives the first date after, or the
last date before, wherever there is one. The walk behind it never ends for want of steps. And the
shifts of two dates, where both exist, have the order of the dates.
-/
theorem nearestWeekday?_strict_nearest_mono (target : Weekday) :
    (∀ d : Date, ∃ n : Int, IsLeast {m | d.number < m ∧ Civil.weekdayOf m = target} n ∧
      d.number + 1 ≤ n ∧ n ≤ d.number + 7 ∧
      (∀ e, d.nearestWeekday? target .next = some e ↔ e.number = n) ∧
      (d.nearestWeekday? target .next = none ↔ ¬∃ e : Date, e.number = n)) ∧
    (∀ d e : Date, d.nearestWeekday? target .next = some e ↔
      IsLeast {f : Date | d < f ∧ f.weekday = target} e) ∧
    (∀ d : Date, ∃ n : Int, IsGreatest {m | m < d.number ∧ Civil.weekdayOf m = target} n ∧
      d.number - 7 ≤ n ∧ n ≤ d.number - 1 ∧
      (∀ e, d.nearestWeekday? target .previous = some e ↔ e.number = n) ∧
      (d.nearestWeekday? target .previous = none ↔ ¬∃ e : Date, e.number = n)) ∧
    (∀ d e : Date, d.nearestWeekday? target .previous = some e ↔
      IsGreatest {f : Date | f < d ∧ f.weekday = target} e) ∧
    (∀ (d : Date) (direction : ShiftDirection), d.walkToWeekday target direction 7 ≠ .spent) ∧
    ∀ (direction : ShiftDirection) (a b a' b' : Date), a ≤ b →
      a.nearestWeekday? target direction = some a' →
      b.nearestWeekday? target direction = some b' → a' ≤ b' := by
  have hleast := fun d : Date => ShiftDirection.isLeast_daysTo target d.number
  have hgreatest := fun d : Date => ShiftDirection.isGreatest_daysTo target d.number
  refine ⟨fun d => ?_, fun d e => ?_, fun d => ?_, fun d e => ?_, fun d direction => ?_, ?_⟩
  · have hbounds := ShiftDirection.next.daysTo_bounds target d.number
    refine ⟨_, hleast d, ?_, ?_, fun e => nearestWeekday?_eq_some_iff, nearestWeekday?_eq_none_iff⟩
    · dsimp only [ShiftDirection.step]
      omega
    · dsimp only [ShiftDirection.step]
      omega
  · exact nearestWeekday?_eq_some_iff.trans (isLeast_weekday_iff (hleast d)).symm
  · have hbounds := ShiftDirection.previous.daysTo_bounds target d.number
    refine ⟨_, hgreatest d, ?_, ?_, fun e => nearestWeekday?_eq_some_iff,
      nearestWeekday?_eq_none_iff⟩
    · dsimp only [ShiftDirection.step]
      omega
    · dsimp only [ShiftDirection.step]
      omega
  · exact nearestWeekday?_eq_some_iff.trans (isGreatest_weekday_iff (hgreatest d)).symm
  · exact walkToWeekday_seven_ne_spent d target direction
  · intro direction a b a' b' hle ha hb
    exact nearestWeekday?_mono hle ha hb

/-- After the last day of the calendar there is no Sunday. -/
example : (⟨95745764, by decide, by decide⟩ : Date).nearestWeekday? .sun .next = none := by decide

/-- Friday, 24 December 2021. -/
def christmasEve : Date := ⟨738513, by decide, by decide⟩

/-- Sunday, 26 December 2021. -/
def boxingDay : Date := ⟨738515, by decide, by decide⟩

/-- Sunday, 2 January 2022. -/
def secondOfJanuary : Date := ⟨738522, by decide, by decide⟩

/-- The Sunday after Christmas Eve is two days later, and the one after that Sunday a week later. -/
theorem nearestWeekday?_strict_nearest_mono_christmas :
    christmasEve ≤ boxingDay ∧
      christmasEve.nearestWeekday? .sun .next = some boxingDay ∧
      boxingDay.nearestWeekday? .sun .next = some secondOfJanuary ∧
      boxingDay ≤ secondOfJanuary := by
  obtain ⟨_, _, _, _, _, hmono⟩ := nearestWeekday?_strict_nearest_mono .sun
  have hle : christmasEve ≤ boxingDay := by decide
  have hfriday : christmasEve.nearestWeekday? .sun .next = some boxingDay := by decide
  have hsunday : boxingDay.nearestWeekday? .sun .next = some secondOfJanuary := by decide
  exact ⟨hle, hfriday, hsunday, hmono .next _ _ _ _ hle hfriday hsunday⟩

end Date

end OpeningHours
