import OpeningHours.Proofs.Machine.Days
import OpeningHours.Timetable.Basic

/-!
# The timetable of a week on machine numbers

A week is planned rule by rule: the dates of a rule are resolved, then the eve and the seven
days take it in, and an illegal rule ends it all. The seven days are reached from Monday
without asking; that the day after them exists was asked before.
-/

namespace OpeningHours.Machine

/-! ## Rules -/

/-- The spans of all the dates of a rule, the first fault named with the rule. -/
def spansOf (seen : YearMonth) (r : Rule) : ExceptT HoursError Machine (List DaySpan) := do
  match ← (r.dates.mapM (spans · seen)).run with
  | .ok spans => return spans.flatten
  | .error fault => throw (.illegalDates fault (some r.id))

/-- A rule seen from a month. Years are only compared. -/
def ofRule (seen : YearMonth) (r : Rule) : ExceptT HoursError Machine Selection := do
  answer (Selection.checkYears r)
  return ⟨r, ← spansOf seen r⟩

/-- The eve and the days of a week take in a rule; the days only if its dates meet the week. -/
def takeInWeek (env : Setting) (span : DaySpan) (plans : DayPlan × List DayPlan) (s : Selection) :
    Machine (DayPlan × List DayPlan) := do
  let eve ← applyTo env plans.1 s
  if s.meets span then return (eve, ← plans.2.mapM (applyTo env · s))
  return (eve, plans.2)

/-- The eve and the days of a week take in a rule, unless it is illegal. -/
def absorb (env : Setting) (seen : YearMonth) (span : DaySpan) (plans : DayPlan × List DayPlan) (r : Rule) :
    ExceptT HoursError Machine (DayPlan × List DayPlan) := do
  let s ← ofRule seen r
  takeInWeek env span plans s

theorem yields_spansOf {seen : YearMonth} (hseen : IsDateYear seen.year) (r : Rule) :
    Yields (spansOf seen r) (Selection.spansOf seen r) := by
  have hspans : (r.dates.mapM (spans · seen)).run = .ok (r.dates.mapM (·.spans seen)) :=
    Yields.mapM fun range _ => yields_spans range hseen
  unfold spansOf Selection.spansOf
  refine .step hspans ?_
  cases r.dates.mapM (·.spans seen) with
  | ok spans => exact yields_pure _
  | error fault => exact yields_throw _

theorem yields_ofRule {seen : YearMonth} (hseen : IsDateYear seen.year) (r : Rule) :
    Yields (ofRule seen r) (Selection.ofRule seen r) := by
  refine (yields_answer _).bind fun _ _ => ?_
  refine (yields_spansOf hseen r).bind fun spans _ => ?_
  exact yields_pure _

section Weeks

variable {env : Setting} (hweeks : ∀ d, env.weekOf d < 0x100000000)

include hweeks

theorem takeInWeek_eq (span : DaySpan) (eve : DayPlan) (days : List DayPlan) (s : Selection) :
    takeInWeek env span (eve, days) s =
      .ok (s.applyTo env eve, if s.meets span then days.map (s.applyTo env ·) else days) := by
  rw [takeInWeek, applyTo_eq hweeks, ok_bind]
  cases s.meets span with
  | true =>
    rw [if_pos rfl, if_pos rfl, mapM_eq fun day _ => applyTo_eq hweeks day s]
    rfl
  | false => rfl

/-- Rules taken in one by one come to the same as all rules resolved first and then taken in. -/
theorem yields_foldlM_absorb {seen : YearMonth} (hseen : IsDateYear seen.year) (span : DaySpan)
    (rules : List Rule) (eve : DayPlan) (days : List DayPlan) :
    Yields (rules.foldlM (absorb env seen span) (eve, days)) (do
      let selections ← rules.mapM (Selection.ofRule seen)
      return (selections.foldl (Selection.applyTo env) eve, days.map fun day =>
        (selections.filter (·.meets span)).foldl (Selection.applyTo env) day)) := by
  induction rules generalizing eve days with
  | nil =>
    simp only [List.foldlM_nil, List.mapM_nil, pure_bind, List.filter_nil, List.foldl_nil, List.map_id']
    exact yields_pure _
  | cons r rules ih =>
    rw [List.foldlM_cons, List.mapM_cons, bind_assoc, absorb, bind_assoc]
    refine (yields_ofRule hseen r).bind fun s _ => ?_
    refine .step (takeInWeek_eq hweeks span eve days s) ?_
    rw [bind_assoc]
    simp only [pure_bind, List.foldl_cons]
    have hrest := ih (s.applyTo env eve) (if s.meets span then days.map (s.applyTo env ·) else days)
    cases hmeets : s.meets span with
    | true =>
      simp only [hmeets, if_true, List.map_map, Function.comp_def] at hrest ⊢
      simpa only [List.filter_cons, hmeets, if_true, List.foldl_cons] using hrest
    | false =>
      simp only [hmeets, Bool.false_eq_true, if_false] at hrest ⊢
      simpa only [List.filter_cons, hmeets, Bool.false_eq_true, if_false] using hrest

end Weeks

/-! ## Midnight -/

/-- A day lines up what another hands on, before which it has handed on nothing itself. -/
def pass (days : List DayPlan) (i : Nat) : Machine (List DayPlan) := do
  let before ← entry days i
  let after ← entry days ((i + 1) % 7)
  return days.set ((i + 1) % 7) (after.receive before.outgoing)

/-- Every day with what the day before it hands on, the last day to none. -/
def linked (eve : DayPlan) (days : List DayPlan) : Machine (List DayPlan) := do
  let first ← entry days 0
  let days ← (List.range 6).foldlM pass (days.set 0 (first.receive eve.outgoing))
  return days.map DayPlan.settle

theorem linked_eq (eve : DayPlan) {days : List DayPlan} (h : days.length = 7) :
    linked eve days = .ok (WeekPlan.linked eve days) := by
  -- what a day hands on is not changed by what it receives, so the seven steps can be written out
  obtain _ | ⟨mon, _ | ⟨tue, _ | ⟨wed, _ | ⟨thu, _ | ⟨fri, _ | ⟨sat, _ | ⟨sun, _ | _⟩⟩⟩⟩⟩⟩⟩ := days <;>
    simp only [List.length_nil, List.length_cons, Nat.reduceAdd, reduceCtorEq, Nat.reduceEqDiff] at h
  simp [linked, pass, entry, List.range_succ, WeekPlan.linked, DayPlan.receive]

/-! ## Weeks -/

/-- The seven dates from a date on. -/
def datesFrom (first : Date) : Machine (List Date) := (List.range 7).mapM fun (i : Nat) => addDays first i

/-- The plans of the days of a week from the rules. -/
def daysOf (rules : List Rule) (week : Week) (seen : YearMonth) (env : Setting) :
    ExceptT HoursError Machine (List DayPlan) := do
  let last ← addDays week.first 6
  let dates ← datesFrom week.first
  let plans ← rules.foldlM (absorb env seen ⟨week.first, last⟩)
    ({ date := week.eve }, dates.map ({ date := · }))
  linked plans.1 plans.2

/-- The seven plans of a week as such. -/
def weekPlan (rules : List Rule) (week : Week) (seen : YearMonth) (days : List DayPlan) : Machine WeekPlan :=
  if h : days.length = 7 then .ok { seen, week, rules, days, length_days := h }
  else .error (.noPlace days.length)

/-- The plan of the week that starts on a date. -/
def make (rules : List Rule) (first : Date) (seen : YearMonth) (env : Setting) :
    ExceptT HoursError Machine WeekPlan :=
  match Week.startingOn? first with
  | none => throw (.illegalDates (.weekOutOfCalendar first) none)
  | some week => do
    let days ← daysOf rules week seen env
    weekPlan rules week seen days

theorem datesFrom_eq (week : Week) : datesFrom week.first = .ok week.days :=
  mapM_range_eq fun _ => addDays_eq rfl

section Weeks

variable {env : Setting} (hweeks : ∀ d, env.weekOf d < 0x100000000)

include hweeks

theorem yields_daysOf {seen : YearMonth} (hseen : IsDateYear seen.year) (rules : List Rule) (week : Week) :
    Yields (daysOf rules week seen env) (do
      let selections ← rules.mapM (Selection.ofRule seen)
      return WeekPlan.daysOf env week selections) := by
  have hlast : addDays week.first 6 = .ok week.last := addDays_eq rfl
  refine .step hlast ?_
  refine .step (datesFrom_eq week) ?_
  have hfold := yields_foldlM_absorb hweeks hseen week.span rules { date := week.eve }
    (week.days.map ({ date := · }))
  cases hsel : rules.mapM (Selection.ofRule seen) with
  | error e =>
    rw [hsel] at hfold
    exact hfold.bind_error _
  | ok selections =>
    rw [hsel] at hfold
    change Yields _ (.ok (_, List.map _ (List.map _ week.days))) at hfold
    rw [List.map_map] at hfold
    refine hfold.bind (g := fun plans => .ok (WeekPlan.linked plans.1 plans.2)) ?_
    rintro _ ⟨⟩
    exact yields_liftM (linked_eq _ (by rw [List.length_map, week.length_days]))

theorem yields_make {seen : YearMonth} (hseen : IsDateYear seen.year) (rules : List Rule) (first : Date) :
    Yields (make rules first seen env) (WeekPlan.make rules first seen env) := by
  unfold make WeekPlan.make
  cases Week.startingOn? first with
  | none => exact yields_throw _
  | some week =>
    have hdays := yields_daysOf hweeks hseen rules week
    cases hsel : rules.mapM (Selection.ofRule seen) with
    | error e =>
      rw [hsel] at hdays
      exact hdays.bind_error _
    | ok selections =>
      rw [hsel] at hdays
      refine hdays.bind (g := fun days => _) ?_
      rintro _ ⟨⟩
      exact yields_liftM (dif_pos (WeekPlan.length_daysOf env week selections))

end Weeks

/-! ## Timetables -/

/-- The timetable of the week around a date. -/
def around (rules : List Rule) (env : Setting) (d : Date) : ExceptT HoursError Machine Timetable :=
  match d.monday? with
  | none => throw (.illegalDates (.weekOutOfCalendar d) none)
  | some monday => do
    let main ← make rules monday d.yearMonth env
    let sunday ← addDays monday 6
    if monday.yearMonth != sunday.yearMonth && rules.any Rule.hasDates then
      let seen := if d.yearMonth = monday.yearMonth then sunday.yearMonth else monday.yearMonth
      return ⟨main, some (← make rules monday seen env)⟩
    return ⟨main, none⟩

theorem yields_around {env : Setting} (hweeks : ∀ d, env.weekOf d < 0x100000000) (rules : List Rule)
    (d : Date) :
    Yields (around rules env d) (Timetable.around rules env d) := by
  unfold around Timetable.around
  cases d.monday? with
  | none => exact yields_throw _
  | some monday =>
    refine (yields_make hweeks (isDateYear_year d) rules monday).bind fun main hmain => ?_
    -- the plan is the one of this Monday, so its week has a Sunday
    obtain ⟨rfl, _⟩ := WeekPlan.make_eq_ok_iff.1 hmain
    have hlast : addDays main.week.first 6 = .ok main.week.last := addDays_eq rfl
    refine .step hlast ?_
    unfold Timetable.isSplit
    cases main.week.first.yearMonth != main.week.last.yearMonth && rules.any Rule.hasDates with
    | false => exact yields_pure _
    | true =>
      have hseen : IsDateYear (Timetable.otherMonth main.week d.yearMonth).year := by
        unfold Timetable.otherMonth
        split
        · exact isDateYear_year _
        · exact isDateYear_year _
      refine (yields_make hweeks hseen rules main.week.first).bind fun other _ => ?_
      exact yields_pure _

end OpeningHours.Machine
