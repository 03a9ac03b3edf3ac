import OpeningHours.Proofs.Timeline
import OpeningHours.Plan.Selection

/-!
# What the rules say of a minute

A day takes its rules in by cutting and sorting intervals. What comes of it can be said of
each minute by itself: the rules are heard one after the other, and each revises what was
said of the minute before, by its kind and by whether it has the minute. Minutes are counted
from the midnight of the day, so those past 24:00 are minutes of the day after; they are what
the day hands on.

`takeIn` is the step and `ofSelections` the run. Both keep the two timelines of the day tidy,
and both are, minute by minute, the revision.
-/

namespace OpeningHours

/-- What is said of a minute once a rule is heard that has the minute or does not. -/
def Rule.revise (r : Rule) (covered : Bool) (said : Option Label) : Option Label :=
  match r.kind with
  | .override => if covered then some r.label else none
  | .additional => if covered then some r.label else said
  | .fallback => if covered && said.isNone then some r.label else said

namespace Selection

/-- What is said of a minute, counted from midnight of a date, once one more rule is heard. -/
def reviseAt (env : Setting) (d : Date) (minute : Nat) (said : Option Label) (s : Selection) :
    Option Label :=
  if s.selects env d then
    s.rule.revise ((s.rule.spansOn env d).any (·.contains minute)) said
  else
    said

/-- What the rules say of a minute, counted from midnight of a date. -/
def said (env : Setting) (d : Date) (selections : List Selection) (minute : Nat) : Option Label :=
  selections.foldl (reviseAt env d minute) none

end Selection

/-! ## The intervals of one rule -/

namespace MinuteSpan

theorem contains_iff {s : MinuteSpan} {minute : Nat} :
    s.contains minute = true ↔ s.start ≤ minute ∧ minute < s.stop := by
  simp [contains]

theorem nonempty?_eq_some_iff {s t : MinuteSpan} :
    s.nonempty? = some t ↔ s.start < s.stop ∧ s = t := by
  unfold nonempty?
  split <;> simp [*]

end MinuteSpan

namespace DayPlan

theorem intervalOf?_eq_some_iff {r : Rule} {s : MinuteSpan} {iv : Interval} :
    intervalOf? r s = some iv ↔ iv.start = s.start ∧ iv.stop = s.stop ∧ iv.label = r.label :=
  Interval.toOption_new?_eq_some_iff

/-- The intervals of a rule over parts of its spans are the parts that have minutes. -/
theorem mem_filterMap_intervalOf? {r : Rule} {spans : List MinuteSpan} {iv : Interval}
    (part : MinuteSpan → MinuteSpan) :
    (iv ∈ spans.filterMap fun s => (part s).nonempty?.bind (intervalOf? r)) ↔
      iv.label = r.label ∧ ∃ s ∈ spans,
        iv.start = (part s).start ∧ iv.stop = (part s).stop ∧ iv.start < iv.stop := by
  simp only [List.mem_filterMap, Option.bind_eq_some_iff, MinuteSpan.nonempty?_eq_some_iff,
    intervalOf?_eq_some_iff]
  refine ⟨?_, ?_⟩
  · intro hgiven
    obtain ⟨s, hs, t, ⟨hlt, rfl⟩, h₁, h₂, h₃⟩ := hgiven
    exact ⟨h₃, s, hs, h₁, h₂, by rw [h₁, h₂]; exact hlt⟩
  · intro hgiven
    obtain ⟨h₃, s, hs, h₁, h₂, hlt⟩ := hgiven
    exact ⟨s, hs, _, ⟨by rw [h₁, h₂] at hlt; exact hlt, rfl⟩, h₁, h₂, h₃⟩

theorem mem_todayOf {r : Rule} {spans : List MinuteSpan} {iv : Interval} :
    iv ∈ todayOf r spans ↔ iv.label = r.label ∧ ∃ s ∈ spans,
      iv.start = s.start ∧ iv.stop = min s.stop minutesPerDay ∧ iv.start < iv.stop :=
  mem_filterMap_intervalOf? fun s => ⟨s.start, min s.stop minutesPerDay⟩

theorem mem_tomorrowOf {r : Rule} {spans : List MinuteSpan} {iv : Interval} :
    iv ∈ tomorrowOf r spans ↔ iv.label = r.label ∧ ∃ s ∈ spans,
      iv.start = s.start - minutesPerDay ∧
      iv.stop = min s.stop (2 * minutesPerDay) - minutesPerDay ∧ iv.start < iv.stop :=
  mem_filterMap_intervalOf? fun s =>
    ⟨s.start - minutesPerDay, min s.stop (2 * minutesPerDay) - minutesPerDay⟩

/-- When the parts end within the day, these intervals have the minutes of the parts. -/
theorem any_filterMap_intervalOf? {r : Rule} {spans : List MinuteSpan} {minute : Nat}
    (part : MinuteSpan → MinuteSpan) (hday : ∀ s, (part s).stop ≤ minutesPerDay) :
    (spans.filterMap fun s => (part s).nonempty?.bind (intervalOf? r)).any (·.contains minute) =
      spans.any fun s => (part s).contains minute := by
  rw [Bool.eq_iff_iff, List.any_eq_true, List.any_eq_true]
  constructor
  · intro hgiven
    obtain ⟨iv, hiv, hm⟩ := hgiven
    obtain ⟨_, s, hs, hstart, hstop, _⟩ := (mem_filterMap_intervalOf? part).1 hiv
    rw [Interval.contains_iff, hstart, hstop] at hm
    exact ⟨s, hs, MinuteSpan.contains_iff.2 hm⟩
  · intro hgiven
    obtain ⟨s, hs, hm⟩ := hgiven
    obtain ⟨hafter, hbefore⟩ := MinuteSpan.contains_iff.1 hm
    have hlt := Nat.lt_of_le_of_lt hafter hbefore
    exact ⟨⟨(part s).start, (part s).stop, r.label, Nat.le_of_lt hlt, hday s,
      Nat.lt_of_lt_of_le hlt (hday s)⟩, (mem_filterMap_intervalOf? part).2 ⟨rfl, s, hs, rfl, rfl, hlt⟩,
      Interval.contains_iff.2 ⟨hafter, hbefore⟩⟩

/-- Before midnight the intervals of a rule have the minutes of its spans. -/
theorem any_todayOf {r : Rule} {spans : List MinuteSpan} {minute : Nat}
    (h : minute < minutesPerDay) :
    (todayOf r spans).any (·.contains minute) = spans.any (·.contains minute) := by
  refine (any_filterMap_intervalOf? (fun s => ⟨s.start, min s.stop minutesPerDay⟩)
    fun s => Nat.min_le_right _ _).trans (congrArg spans.any (funext fun s => ?_))
  rw [Bool.eq_iff_iff, MinuteSpan.contains_iff, MinuteSpan.contains_iff]
  dsimp only
  omega

theorem any_tomorrowOf {r : Rule} {spans : List MinuteSpan} {minute : Nat}
    (h : minute < minutesPerDay) :
    (tomorrowOf r spans).any (·.contains minute) =
      spans.any (·.contains (minute + minutesPerDay)) := by
  refine (any_filterMap_intervalOf?
    (fun s => ⟨s.start - minutesPerDay, min s.stop (2 * minutesPerDay) - minutesPerDay⟩)
    fun s => ?_).trans (congrArg spans.any (funext fun s => ?_))
  · dsimp only
    omega
  · rw [Bool.eq_iff_iff, MinuteSpan.contains_iff, MinuteSpan.contains_iff]
    dsimp only
    omega

/-! ## Taking a rule in -/

/-- Intervals that all say the same say it of every minute that one of them has. -/
theorem labelAt_of_forall_label {list : Timeline} {label : Label}
    (h : ∀ iv ∈ list, iv.label = label) (minute : Nat) :
    list.labelAt minute =
      if list.any (Interval.contains · minute) then some label else none := by
  induction list with
  | nil => rfl
  | cons iv rest ih =>
      obtain ⟨hiv, hrest⟩ := List.forall_mem_cons.1 h
      rw [Timeline.labelAt_cons, List.any_cons, ih hrest, hiv]
      cases iv.contains minute <;> rfl

theorem tidy_combine {old : Timeline} (h : old.Tidy) (kind : RuleKind) (new : List Interval) :
    (combine kind old new).Tidy := by
  cases kind with
  | override => exact Timeline.tidy_foldl_layOver Timeline.tidy_nil new
  | additional => exact Timeline.tidy_foldl_layOver h new
  | fallback => exact Timeline.tidy_foldl_layUnder h new

/-- Combining timelines is revising what is said of each minute. -/
theorem labelAt_combine {old : Timeline} (h : old.Tidy) {r : Rule} {new : List Interval}
    (hnew : ∀ iv ∈ new, iv.label = r.label) (minute : Nat) :
    (combine r.kind old new).labelAt minute =
      r.revise (new.any (·.contains minute)) (old.labelAt minute) := by
  have hover : ∀ iv ∈ new.reverse, iv.label = r.label :=
    fun iv hiv => hnew iv (List.mem_reverse.1 hiv)
  unfold Rule.revise combine
  cases r.kind with
  | override =>
      -- the last of the new intervals speaks for a minute, but they all say the same
      dsimp only
      rw [Timeline.labelAt_foldl_layOver Timeline.tidy_nil, labelAt_of_forall_label hover,
        List.any_reverse]
      exact Option.or_none
  | additional =>
      dsimp only
      rw [Timeline.labelAt_foldl_layOver h, labelAt_of_forall_label hover, List.any_reverse]
      split <;> rfl
  | fallback =>
      dsimp only
      rw [Timeline.labelAt_foldl_layUnder h, labelAt_of_forall_label hnew]
      cases old.labelAt minute <;> cases new.any (·.contains minute) <;> rfl

/-- What holds in a day and what it hands on are tidy, both of them. -/
structure Tidy (day : DayPlan) : Prop where
  intervals : day.intervals.Tidy
  outgoing : day.outgoing.Tidy

theorem tidy_takeIn {day : DayPlan} (h : day.Tidy) (r : Rule) (spans : List MinuteSpan) :
    (day.takeIn r spans).Tidy :=
  ⟨tidy_combine h.intervals r.kind _, tidy_combine h.outgoing r.kind _⟩

theorem labelAt_intervals_takeIn {day : DayPlan} (h : day.Tidy) (r : Rule)
    (spans : List MinuteSpan) {minute : Nat} (hm : minute < minutesPerDay) :
    (day.takeIn r spans).intervals.labelAt minute =
      r.revise (spans.any (·.contains minute)) (day.intervals.labelAt minute) := by
  rw [← any_todayOf (r := r) hm]
  exact labelAt_combine h.intervals (fun iv hiv => (mem_todayOf.1 hiv).1) minute

/-- Taking a rule in revises what the day hands on of the minutes after midnight. -/
theorem labelAt_outgoing_takeIn {day : DayPlan} (h : day.Tidy) (r : Rule)
    (spans : List MinuteSpan) {minute : Nat} (hm : minute < minutesPerDay) :
    (day.takeIn r spans).outgoing.labelAt minute =
      r.revise (spans.any (·.contains (minute + minutesPerDay)))
        (day.outgoing.labelAt minute) := by
  rw [← any_tomorrowOf (r := r) hm]
  exact labelAt_combine h.outgoing (fun iv hiv => (mem_tomorrowOf.1 hiv).1) minute

end DayPlan

/-! ## All rules, one after the other -/

namespace DayPlan

open Selection

variable {env : Setting} {d : Date} {selections : List Selection} {minute : Nat}

@[simp] theorem date_applyTo (env : Setting) (day : DayPlan) (s : Selection) :
    (s.applyTo env day).date = day.date := by
  unfold applyTo
  split <;> rfl

@[simp] theorem incoming_applyTo (env : Setting) (day : DayPlan) (s : Selection) :
    (s.applyTo env day).incoming = day.incoming := by
  unfold applyTo
  split <;> rfl

theorem tidy_applyTo {day : DayPlan} (h : day.Tidy) (env : Setting) (s : Selection) :
    (s.applyTo env day).Tidy := by
  unfold applyTo
  split
  · exact tidy_takeIn h s.rule _
  · exact h

theorem labelAt_intervals_applyTo {day : DayPlan} (h : day.Tidy) (s : Selection)
    (hm : minute < minutesPerDay) :
    (s.applyTo env day).intervals.labelAt minute =
      reviseAt env day.date minute (day.intervals.labelAt minute) s := by
  unfold applyTo reviseAt
  split
  · exact labelAt_intervals_takeIn h s.rule _ hm
  · rfl

theorem labelAt_outgoing_applyTo {day : DayPlan} (h : day.Tidy) (s : Selection)
    (hm : minute < minutesPerDay) :
    (s.applyTo env day).outgoing.labelAt minute =
      reviseAt env day.date (minute + minutesPerDay) (day.outgoing.labelAt minute) s := by
  unfold applyTo reviseAt
  split
  · exact labelAt_outgoing_takeIn h s.rule _ hm
  · rfl

/-- A run of rules over a day leaves its date, keeps it tidy and revises minute by minute. -/
theorem foldl_applyTo_spec {day : DayPlan} (h : day.Tidy) (selections : List Selection) :
    let run := selections.foldl (applyTo env) day
    run.date = day.date ∧ run.incoming = day.incoming ∧ run.Tidy ∧
      ∀ minute < minutesPerDay,
        run.intervals.labelAt minute =
          selections.foldl (reviseAt env day.date minute) (day.intervals.labelAt minute) ∧
        run.outgoing.labelAt minute =
          selections.foldl (reviseAt env day.date (minute + minutesPerDay))
            (day.outgoing.labelAt minute) := by
  induction selections generalizing day with
  | nil => exact ⟨rfl, rfl, h, fun _ _ => ⟨rfl, rfl⟩⟩
  | cons s rest ih =>
      -- the rest of the run starts from the day as the first rule leaves it
      obtain ⟨hd, hi, ht, hsaid⟩ := ih (tidy_applyTo h env s)
      refine ⟨hd.trans (date_applyTo env day s), hi.trans (incoming_applyTo env day s), ht, ?_⟩
      intro minute hm
      obtain ⟨htoday, htomorrow⟩ := hsaid minute hm
      rw [date_applyTo, labelAt_intervals_applyTo h s hm] at htoday
      rw [date_applyTo, labelAt_outgoing_applyTo h s hm] at htomorrow
      exact ⟨htoday, htomorrow⟩

theorem tidy_empty (d : Date) : DayPlan.Tidy { date := d } := ⟨Timeline.tidy_nil, Timeline.tidy_nil⟩

@[simp] theorem date_ofSelections : (ofSelections env d selections).date = d :=
  (foldl_applyTo_spec (tidy_empty d) selections).1

@[simp] theorem incoming_ofSelections : (ofSelections env d selections).incoming = [] :=
  (foldl_applyTo_spec (tidy_empty d) selections).2.1

theorem tidy_ofSelections : (ofSelections env d selections).Tidy :=
  (foldl_applyTo_spec (tidy_empty d) selections).2.2.1

/-- The intervals of a day are what its rules say of its minutes. -/
theorem labelAt_intervals_ofSelections (hm : minute < minutesPerDay) :
    (ofSelections env d selections).intervals.labelAt minute = said env d selections minute :=
  ((foldl_applyTo_spec (tidy_empty d) selections).2.2.2 minute hm).1

/-- What a day hands on is what its rules say of the minutes past 24:00. -/
theorem labelAt_outgoing_ofSelections (hm : minute < minutesPerDay) :
    (ofSelections env d selections).outgoing.labelAt minute =
      said env d selections (minute + minutesPerDay) :=
  ((foldl_applyTo_spec (tidy_empty d) selections).2.2.2 minute hm).2

/-! ## What the day before hands on -/

theorem tidy_settle {day : DayPlan} (h : day.Tidy) : day.settle.Tidy :=
  ⟨Timeline.tidy_foldl_layOver h.intervals day.incoming, h.outgoing⟩

/-- Of what was handed on, the last interval that has a minute speaks for it, before the rules do. -/
theorem labelAt_intervals_settle {day : DayPlan} (h : day.Tidy) (minute : Nat) :
    day.settle.intervals.labelAt minute =
      (Timeline.labelAt day.incoming.reverse minute).or (day.intervals.labelAt minute) :=
  Timeline.labelAt_foldl_layOver h.intervals day.incoming minute

end DayPlan

end OpeningHours
