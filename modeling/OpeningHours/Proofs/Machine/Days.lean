import OpeningHours.Proofs.Machine.Dates

/-!
# The plan of a day on machine numbers

A fixed time may be any number of 32 bits and an offset from the sun any with a sign, but a
minute is at most 48:00 before anything is added to it. What is cut off at midnight then makes
an interval, and the week numbers of a range stay below the larger of the two they come from.
-/

namespace OpeningHours.Machine

/-! ## Minutes -/

/-- The minute of a time on a date; an event of the sun with its offset is reckoned in 64 bits. -/
def minuteOn (env : Setting) (d : Date) : TimePoint → Machine Nat
  | .fixed minute => return min minute.toNat (2 * minutesPerDay)
  | .solar event offset => do
    let sun ← clock (env.sunMinute d event)
    let minute ← int64 (sun + offset.toInt)
    return min (max minute 0).toNat minutesPerDay

/-- The minute at which a span ends that starts at a minute. -/
def stopOn (env : Setting) (d : Date) (start : Nat) : Option TimePoint → Machine Nat
  | none => uint32 (start + 1)
  | some point => do
    let stop ← minuteOn env d point
    if stop ≤ start then uint32 (stop + minutesPerDay) else return stop

/-- The minutes of a span of time on a date, which end a day after its start at the latest. -/
def minutesOn (env : Setting) (d : Date) (s : TimeSpan) : Machine MinuteSpan := do
  let start ← minuteOn env d s.start
  let stop ← stopOn env d start s.stop?
  return ⟨start, min stop (← uint32 (start + minutesPerDay))⟩

/-- The minutes of a rule on a date, all day long when it names no times. -/
def spansOn (r : Rule) (env : Setting) (d : Date) : Machine (List MinuteSpan) := do
  if r.times.isEmpty then return [⟨0, minutesPerDay⟩]
  r.times.mapM (minutesOn env d)

theorem minuteOn_eq (env : Setting) (d : Date) (p : TimePoint) :
    minuteOn env d p = .ok (p.minuteOn env d) := by
  cases p with
  | fixed minute => rfl
  | solar event offset =>
    have hlow := offset.le_toInt
    have hhigh := offset.toInt_lt
    have hsun : env.sunMinute d event < 1440 := by
      unfold Setting.sunMinute
      cases env.solar? d env.coordinates? event with
      | some minute => exact minute.isLt
      | none => cases event <;> decide
    rw [minuteOn, clock_eq hsun, ok_bind, int64_eq (by omega)]
    rfl

theorem minuteOn_le (env : Setting) (d : Date) (p : TimePoint) : p.minuteOn env d ≤ 2880 := by
  cases p with
  | fixed minute => exact Nat.min_le_right _ _
  | solar event offset => exact Nat.le_trans (Nat.min_le_right _ _) (by decide)

theorem minutesOn_eq (env : Setting) (d : Date) (s : TimeSpan) :
    minutesOn env d s = .ok (s.minutesOn env d) := by
  have hday : minutesPerDay = 1440 := rfl
  have hstart := minuteOn_le env d s.start
  rw [minutesOn, minuteOn_eq, ok_bind, TimeSpan.minutesOn]
  cases s.stop? with
  | none =>
    rw [stopOn, uint32_eq (Int.natCast_succ _).symm (by omega), ok_bind,
      uint32_eq (Int.natCast_add _ _).symm (by omega)]
    rfl
  | some point =>
    have hstop := minuteOn_le env d point
    rw [stopOn, minuteOn_eq, ok_bind]
    by_cases hle : point.minuteOn env d ≤ s.start.minuteOn env d
    · rw [if_pos hle, uint32_eq (Int.natCast_add _ _).symm (by omega), ok_bind,
        uint32_eq (Int.natCast_add _ _).symm (by omega)]
      simp only [if_pos hle]
      rfl
    · rw [if_neg hle, pure_eq_ok, ok_bind, uint32_eq (Int.natCast_add _ _).symm (by omega)]
      simp only [if_neg hle]
      rfl

theorem spansOn_eq (r : Rule) (env : Setting) (d : Date) : spansOn r env d = .ok (r.spansOn env d) := by
  unfold spansOn Rule.spansOn
  cases r.times.isEmpty with
  | true => rfl
  | false => exact mapM_eq fun s _ => minutesOn_eq env d s

/-! ## Intervals -/

/-- The parts of a span before midnight and after it. -/
def split (s : MinuteSpan) : Machine (Option MinuteSpan × Option MinuteSpan) := do
  let start := min s.start (2 * minutesPerDay)
  let stop ← clamp s.stop start (2 * minutesPerDay)
  if minutesPerDay ≤ start then
    let first ← uint32 (start - minutesPerDay)
    let last ← uint32 (stop - minutesPerDay)
    return (none, (MinuteSpan.nonempty? ⟨first, last⟩).filter (·.start < minutesPerDay))
  if minutesPerDay < stop then
    let last ← uint32 (stop - minutesPerDay)
    return (MinuteSpan.nonempty? ⟨start, minutesPerDay⟩,
      (MinuteSpan.nonempty? ⟨0, last⟩).filter (·.start < minutesPerDay))
  return (MinuteSpan.nonempty? ⟨start, stop⟩, none)

/-- The interval of a rule over a span of minutes. -/
def intervalOf (r : Rule) (s : MinuteSpan) : Machine Interval := interval s.start s.stop r.label

/-- The intervals of a rule over the two parts of a span. -/
def intervalsOf (r : Rule) (s : MinuteSpan) : Machine (Option Interval × Option Interval) := do
  let (today?, tomorrow?) ← split s
  return (← today?.mapM (intervalOf r), ← tomorrow?.mapM (intervalOf r))

/-- A day takes in a rule over spans of minutes, whose intervals may be refused. -/
def takeIn (day : DayPlan) (r : Rule) (spans : List MinuteSpan) : Machine DayPlan := do
  let parts ← spans.mapM (intervalsOf r)
  return { day with
    intervals := DayPlan.combine r.kind day.intervals (parts.filterMap Prod.fst)
    outgoing := DayPlan.combine r.kind day.outgoing (parts.filterMap Prod.snd) }

/-- Two pairs of ends with no minute between them are as good as the same. -/
theorem nonempty?_congr {a b c d : Nat} (h : a = c ∧ b = d ∨ b ≤ a ∧ d ≤ c) :
    MinuteSpan.nonempty? ⟨a, b⟩ = MinuteSpan.nonempty? ⟨c, d⟩ := by
  rcases h with ⟨rfl, rfl⟩ | ⟨hab, hcd⟩
  · rfl
  · rw [MinuteSpan.nonempty?, MinuteSpan.nonempty?, if_neg (Nat.not_lt.2 hab), if_neg (Nat.not_lt.2 hcd)]

theorem nonempty?_eq_none {a b : Nat} (h : b ≤ a) : MinuteSpan.nonempty? ⟨a, b⟩ = none :=
  if_neg (Nat.not_lt.2 h)

theorem filter_nonempty? {a b bound : Nat} (h : b ≤ bound) :
    (MinuteSpan.nonempty? ⟨a, b⟩).filter (·.start < bound) = MinuteSpan.nonempty? ⟨a, b⟩ := by
  rw [MinuteSpan.nonempty?]
  split
  · rename_i hlt
    exact Option.filter_eq_some_iff.2 ⟨rfl, decide_eq_true (Nat.lt_of_lt_of_le hlt h)⟩
  · rfl

theorem split_eq (s : MinuteSpan) : split s = .ok (s.today?, s.tomorrow?) := by
  have hday : minutesPerDay = 1440 := rfl
  obtain ⟨start, stop⟩ := s
  simp only [split, MinuteSpan.today?, MinuteSpan.tomorrow?, hday]
  rw [clamp_eq (Nat.min_le_right _ _), ok_bind]
  generalize hfirst : min start (2 * 1440) = first
  generalize hlast : min (max stop first) (2 * 1440) = last
  by_cases hlate : 1440 ≤ first
  · rw [if_pos hlate, uint32_eq (n := first - 1440) (by omega) (by omega), ok_bind,
      uint32_eq (n := last - 1440) (by omega) (by omega), ok_bind, filter_nonempty? (by omega),
      pure_eq_ok, Except.ok.injEq, Prod.mk.injEq]
    refine ⟨?_, ?_⟩
    · exact (nonempty?_eq_none (by omega)).symm
    · exact nonempty?_congr (by omega)
  · rw [if_neg hlate]
    by_cases hcross : 1440 < last
    · rw [if_pos hcross, uint32_eq (n := last - 1440) (by omega) (by omega), ok_bind,
        filter_nonempty? (by omega), pure_eq_ok, Except.ok.injEq, Prod.mk.injEq]
      refine ⟨?_, ?_⟩
      · exact nonempty?_congr (by omega)
      · exact nonempty?_congr (by omega)
    · rw [if_neg hcross, pure_eq_ok, Except.ok.injEq, Prod.mk.injEq]
      refine ⟨?_, ?_⟩
      · exact nonempty?_congr (by omega)
      · exact (nonempty?_eq_none (by omega)).symm

/-- The ends that midnight leaves of a span are the ends of an interval. -/
theorem intervalOf_eq {r : Rule} {s : MinuteSpan} (h : s.start < s.stop) (hday : s.stop ≤ 1440) :
    intervalOf r s = .ok ⟨s.start, s.stop, r.label, by omega, hday, by omega⟩ := by
  rw [intervalOf, interval, Interval.new?, dif_pos (by omega), dif_pos hday, dif_pos (by omega)]

theorem mapM_intervalOf {r : Rule} {s? : Option MinuteSpan}
    (h : ∀ s, s? = some s → s.start < s.stop ∧ s.stop ≤ 1440) :
    s?.mapM (intervalOf r) = .ok (s?.bind (DayPlan.intervalOf? r)) := by
  cases s? with
  | none => rfl
  | some s =>
    obtain ⟨hlt, hle⟩ := h s rfl
    rw [Option.bind_some, DayPlan.intervalOf?, Interval.new?, dif_pos (by omega), dif_pos hle,
      dif_pos (by omega), Option.mapM_some, intervalOf_eq hlt hle]
    rfl

theorem intervalsOf_eq (r : Rule) (s : MinuteSpan) : intervalsOf r s =
    .ok (s.today?.bind (DayPlan.intervalOf? r), s.tomorrow?.bind (DayPlan.intervalOf? r)) := by
  have htoday : ∀ part, s.today? = some part → part.start < part.stop ∧ part.stop ≤ 1440 := by
    intro part hpart
    obtain ⟨hlt, rfl⟩ := MinuteSpan.nonempty?_eq_some_iff.1 hpart
    exact ⟨hlt, Nat.min_le_right _ _⟩
  have htomorrow : ∀ part, s.tomorrow? = some part → part.start < part.stop ∧ part.stop ≤ 1440 := by
    intro part hpart
    obtain ⟨hlt, rfl⟩ := MinuteSpan.nonempty?_eq_some_iff.1 hpart
    exact ⟨hlt, Nat.sub_le_sub_right (Nat.min_le_right _ _) minutesPerDay⟩
  rw [intervalsOf, split_eq, ok_bind]
  simp only [mapM_intervalOf htoday, mapM_intervalOf htomorrow, ok_bind]
  rfl

theorem takeIn_eq (day : DayPlan) (r : Rule) (spans : List MinuteSpan) :
    takeIn day r spans = .ok (day.takeIn r spans) := by
  rw [takeIn, mapM_eq fun s _ => intervalsOf_eq r s, ok_bind, DayPlan.takeIn, DayPlan.todayOf,
    DayPlan.tomorrowOf, List.filterMap_map, List.filterMap_map, pure_eq_ok]
  simp only [Function.comp_def]

/-! ## Years and weeks -/

/-- Whether a year lies in a range, on one of its steps. -/
def yearContains (r : YearRange) (year : Int) : Machine Bool := do
  if year < r.start.toInt then return false
  if !(r.openEnded || decide (year ≤ r.last)) then return false
  let distance ← int64 (year - r.start.toInt)
  return (← rem distance (max r.step.toNat 1 : Nat)) == 0

/-- How far into a range a week lies, if it lies in it. -/
def distance? (r : WeekRange) (week yearWeeks : Nat) : Machine (Option Nat) := do
  let start := r.start.toNat
  let stop := r.stop.toNat
  if start ≤ stop then
    if start ≤ week ∧ week ≤ stop then return some (← uint32 (week - start))
    return none
  if start ≤ week then return some (← uint32 (week - start))
  if week ≤ stop then return some (← uint32 ((yearWeeks - start : Nat) + week))
  return none

/-- Whether a week number lies in a range, on one of its steps. -/
def weekContains (r : WeekRange) (week yearWeeks : Nat) : Machine Bool := do
  match ← distance? r week yearWeeks with
  | none => return false
  | some distance => return (← rem distance (max r.step.toNat 1 : Nat)) == 0

/-- The weeks of the year before, by going back as many weeks as the number of the week says. -/
def weeksOfYearBefore (env : Setting) (d : Date) : Machine Nat := do
  let back ← uint64 (7 * env.weekOf d)
  match d.add? (-back) with
  | some last => return env.weekOf last
  | none => return 52

theorem yearContains_eq {r : YearRange} {year : Int} (hyear : IsDateYear year) :
    yearContains r year = .ok (r.contains year) := by
  have hlow := r.start.le_toInt
  have hhigh := r.start.toInt_lt
  unfold IsDateYear minYear maxYear at hyear
  rw [yearContains, YearRange.contains]
  by_cases hbefore : year < r.start.toInt
  · rw [if_pos hbefore, decide_eq_false (Int.not_le.2 hbefore), Bool.false_and, Bool.false_and]
    rfl
  · rw [if_neg hbefore, decide_eq_true (Int.not_lt.1 hbefore), Bool.true_and]
    cases r.openEnded || decide (year ≤ r.last) with
    | false => rfl
    | true =>
      rw [Bool.not_true, if_neg Bool.false_ne_true, int64_eq (by omega), ok_bind,
        rem_eq (by omega) (by omega)]
      rfl

theorem distance?_eq {r : WeekRange} {week yearWeeks : Nat} (hweek : week < 0x100000000)
    (hyear : yearWeeks < 0x100000000) : distance? r week yearWeeks = .ok (r.distance? week yearWeeks) := by
  simp only [distance?, WeekRange.distance?]
  by_cases hplain : r.start.toNat ≤ r.stop.toNat
  · rw [if_pos hplain, if_pos hplain]
    by_cases hin : r.start.toNat ≤ week ∧ week ≤ r.stop.toNat
    · rw [if_pos hin, if_pos hin, uint32_eq (n := week - r.start.toNat) (by omega) (by omega)]
      rfl
    · rw [if_neg hin, if_neg hin]
      rfl
  · rw [if_neg hplain, if_neg hplain]
    by_cases hafter : r.start.toNat ≤ week
    · rw [if_pos hafter, if_pos hafter, uint32_eq (n := week - r.start.toNat) (by omega) (by omega)]
      rfl
    · rw [if_neg hafter, if_neg hafter]
      by_cases hturned : week ≤ r.stop.toNat
      · -- the week number is less than the start, so the sum stays below one of the two numbers
        rw [if_pos hturned, if_pos hturned,
          uint32_eq (n := yearWeeks - r.start.toNat + week) (by omega) (by omega)]
        rfl
      · rw [if_neg hturned, if_neg hturned]
        rfl

theorem weekContains_eq {r : WeekRange} {week yearWeeks : Nat} (hweek : week < 0x100000000)
    (hyear : yearWeeks < 0x100000000) : weekContains r week yearWeeks = .ok (r.contains week yearWeeks) := by
  rw [weekContains, distance?_eq hweek hyear, ok_bind, WeekRange.contains]
  cases r.distance? week yearWeeks with
  | none => rfl
  | some distance =>
    have hstep : ((max r.step.toNat 1 : Nat) : Int) ≠ 0 := by omega
    show (rem distance (max r.step.toNat 1 : Nat) >>= fun left => .ok (left == 0)) =
      .ok (distance % max r.step.toNat 1 == 0)
    rw [rem_eq (Int.natCast_nonneg _) hstep, ok_bind, ← Int.natCast_emod, Except.ok.injEq, Bool.eq_iff_iff,
      beq_iff_eq, beq_iff_eq, Int.natCast_eq_zero]

theorem weeksOfYearBefore_eq {env : Setting} (d : Date) (hweeks : ∀ d, env.weekOf d < 0x100000000) :
    weeksOfYearBefore env d = .ok (env.weeksOfYearBefore d) := by
  have hweek := hweeks d
  have hback : -((7 * env.weekOf d : Nat) : Int) = -(7 * (env.weekOf d : Int)) := by omega
  rw [weeksOfYearBefore, uint64_eq (n := 7 * env.weekOf d) (by omega) (by omega), ok_bind,
    Setting.weeksOfYearBefore, hback]
  cases d.add? (-(7 * (env.weekOf d : Int))) <;> rfl

theorem weeksOfYearBefore_lt {env : Setting} (d : Date) (hweeks : ∀ d, env.weekOf d < 0x100000000) :
    env.weeksOfYearBefore d < 0x100000000 := by
  unfold Setting.weeksOfYearBefore
  cases d.add? (-(7 * (env.weekOf d : Int))) with
  | none => exact (by decide : 52 < 0x100000000)
  | some last => exact hweeks last

/-! ## Days -/

/-- Whether a rule selects the year of a date. -/
def selectsYear (r : Rule) (d : Date) : Machine Bool := do
  if r.years.isEmpty then return true
  r.years.anyM (yearContains · d.year)

/-- Whether a rule selects the week of a date. -/
def selectsWeek (r : Rule) (env : Setting) (d : Date) : Machine Bool := do
  if r.weeks.isEmpty then return true
  let yearWeeks ← weeksOfYearBefore env d
  r.weeks.anyM (weekContains · (env.weekOf d) yearWeeks)

/-- Whether a rule selects a day. Its days of the week and its holidays need no arithmetic that can fail. -/
def selects (s : Selection) (env : Setting) (d : Date) : Machine Bool := do
  let year ← selectsYear s.rule d
  let week ← selectsWeek s.rule env d
  let date := !s.rule.hasDates || s.spans.any (·.contains d)
  return year && week && date && Selection.selectsDay s.rule env d

/-- A day takes in a rule if the rule selects it. -/
def applyTo (env : Setting) (day : DayPlan) (s : Selection) : Machine DayPlan := do
  if ← selects s env day.date then takeIn day s.rule (← spansOn s.rule env day.date)
  else return day

theorem selectsYear_eq (r : Rule) (d : Date) : selectsYear r d = .ok (Selection.selectsYear r d) := by
  rw [selectsYear, Selection.selectsYear]
  cases r.years.isEmpty with
  | true => rfl
  | false => exact anyM_eq fun years _ => yearContains_eq (isDateYear_year d)

section Weeks

variable {env : Setting} (hweeks : ∀ d, env.weekOf d < 0x100000000)

include hweeks

theorem selectsWeek_eq (r : Rule) (d : Date) : selectsWeek r env d = .ok (Selection.selectsWeek r env d) := by
  rw [selectsWeek, Selection.selectsWeek]
  cases r.weeks.isEmpty with
  | true => rfl
  | false =>
    rw [if_neg Bool.false_ne_true, weeksOfYearBefore_eq d hweeks, ok_bind, Bool.false_or]
    exact anyM_eq fun weeks _ => weekContains_eq (hweeks d) (weeksOfYearBefore_lt d hweeks)

theorem selects_eq (s : Selection) (d : Date) : selects s env d = .ok (s.selects env d) := by
  rw [selects, selectsYear_eq, ok_bind, selectsWeek_eq hweeks, ok_bind]
  rfl

theorem applyTo_eq (day : DayPlan) (s : Selection) : applyTo env day s = .ok (s.applyTo env day) := by
  rw [applyTo, selects_eq hweeks, ok_bind, Selection.applyTo]
  cases s.selects env day.date with
  | true =>
    rw [if_pos rfl, if_pos rfl, spansOn_eq, ok_bind]
    exact takeIn_eq day s.rule _
  | false => rfl

end Weeks

end OpeningHours.Machine
