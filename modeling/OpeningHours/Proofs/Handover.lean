import OpeningHours.Proofs.OwnMonth

/-!
# When the next day keeps what a day hands on

What a day hands on is worked out from its own month; what the next day takes over is worked
out once more, from the month of the next day. Within a month the two are the same. Across the
end of a month they may differ, as a range of dates without a year or a month stands for other
days there: the 31st of December seen from January lies eleven months ahead.

So what is handed on is kept exactly where the rules say the same of the minutes past 24:00
from both months, or the next day happens to say so itself. It is always kept when every rule
selects the day from the one month as from the other.
-/

namespace OpeningHours

/-- Two labels agree when they name the same status, comment and rule. -/
def Label.Agrees (a b : Label) : Prop :=
  a.status = b.status ∧ a.comment? = b.comment? ∧ a.rule? = b.rule?

theorem Label.Agrees.refl (a : Label) : a.Agrees a := ⟨rfl, rfl, rfl⟩

namespace DayPlan

/-- At every minute that a day hands on, the next day has an interval that says the same. -/
def Keeps (next before : DayPlan) : Prop :=
  ∀ o ∈ before.outgoing, ∀ minute, o.contains minute = true →
    ∃ iv, next.inForce? minute = some iv ∧ iv.label.Agrees o.label

/-- Whether a day keeps what it is handed shows in the labels of its minutes. -/
theorem keeps_iff_labelAt {next before : DayPlan} (h : before.Tidy) :
    next.Keeps before ↔ ∀ minute < minutesPerDay, ∀ label,
      before.outgoing.labelAt minute = some label →
        ∃ kept, next.intervals.labelAt minute = some kept ∧ kept.Agrees label := by
  refine ⟨?_, ?_⟩
  · intro hkeeps minute _ label hlabel
    obtain ⟨o, ho, hcontains, rfl⟩ :=
      (Timeline.labelAt_eq_some_iff h.outgoing.pairwise_apart).1 hlabel
    obtain ⟨iv, hiv, hagrees⟩ := hkeeps o ho minute hcontains
    exact ⟨iv.label, congrArg (Option.map Interval.label) hiv, hagrees⟩
  · intro hlabels o ho minute hcontains
    obtain ⟨kept, hkept, hagrees⟩ := hlabels minute
      (Interval.lt_minutesPerDay_of_contains hcontains) o.label
      ((Timeline.labelAt_eq_some_iff h.outgoing.pairwise_apart).2 ⟨o, ho, hcontains, rfl⟩)
    obtain ⟨iv, hiv, rfl⟩ := Option.map_eq_some_iff.1 hkept
    exact ⟨iv, hiv, hagrees⟩

end DayPlan

namespace Selection

variable {env : Setting} {d : Date} {rules : List Rule} {seen : YearMonth}

theorem map_rule_of_mapM {selections : List Selection}
    (h : rules.mapM (ofRule seen) = .ok selections) : selections.map rule = rules := by
  rw [mapM_eq_ok_iff_forall₂] at h
  induction h with
  | nil => rfl
  | cons hs _ ih => rw [List.map_cons, ih, (ofRule_eq_ok_iff.1 hs).2.1]

/-- What rules say of a day depends on the month only through whether they select the day. -/
theorem said_congr {a b : List Selection} (hrule : a.map rule = b.map rule)
    (hselects : a.map (·.selects env d) = b.map (·.selects env d)) (minute : Nat) :
    said env d a minute = said env d b minute := by
  unfold said
  generalize (none : Option Label) = heard
  induction a generalizing b heard with
  | nil =>
      cases b with
      | nil => rfl
      | cons s rest => cases hrule
  | cons s rest ih =>
      cases b with
      | nil => cases hrule
      | cons s' rest' =>
          simp only [List.map_cons, List.cons.injEq] at hrule hselects
          have hstep : reviseAt env d minute heard s = reviseAt env d minute heard s' := by
            unfold reviseAt
            rw [hrule.1, hselects.1]
          rw [List.foldl_cons, List.foldl_cons, hstep, ih hrule.2 hselects.2]

end Selection

namespace Timetable

open Selection

variable {rules : List Rule} {env : Setting} {d e : Date} {t t' : Timetable}

/--
**When the next day keeps what a day hands on.**

It keeps it exactly where the rules, seen from the month of the next day, say of the minutes
past 24:00 what they say of them seen from the month of the day, or else say so of the minutes
as minutes of the next day. It always does when each rule selects the day from the month of
the next day as it does from its own; so it does within a month, and when no rule has dates.
-/
theorem keeps_iff_said (h : around rules env d = .ok t) (h' : around rules env e = .ok t')
    (hnext : d.number + 1 = e.number) :
    ∃ own others, rules.mapM (ofRule d.yearMonth) = .ok own ∧
      rules.mapM (ofRule e.yearMonth) = .ok others ∧
      ((t'.day e.weekday).Keeps (t.day d.weekday) ↔
        ∀ minute < minutesPerDay, ∀ label,
          said env d own (minute + minutesPerDay) = some label →
            ∃ kept, (said env d others (minute + minutesPerDay)).or
                (said env e others minute) = some kept ∧ kept.Agrees label) ∧
      (own.map (·.selects env d) = others.map (·.selects env d) →
        (t'.day e.weekday).Keeps (t.day d.weekday)) ∧
      (d.yearMonth = e.yearMonth ∨ rules.any Rule.hasDates = false →
        (t'.day e.weekday).Keeps (t.day d.weekday)) := by
  obtain ⟨own, before, hown, _, hday⟩ := day_inOwnMonth h (around_eq_ok_iff.1 h).1
  obtain ⟨others, before', hothers, hbefore', hday'⟩ :=
    day_inOwnMonth h' (around_eq_ok_iff.1 h').1
  -- the next day simulates the very day before it, from another month
  obtain rfl : before' = d := Date.ext (by omega)
  have hiff : (t'.day e.weekday).Keeps (t.day before'.weekday) ↔
      ∀ minute < minutesPerDay, ∀ label,
        said env before' own (minute + minutesPerDay) = some label →
          ∃ kept, (said env before' others (minute + minutesPerDay)).or
              (said env e others minute) = some kept ∧ kept.Agrees label := by
    rw [hday, hday', DayPlan.keeps_iff_labelAt DayPlan.tidy_following]
    refine forall₂_congr fun minute hm => ?_
    rw [DayPlan.outgoing_following, DayPlan.labelAt_outgoing_ofSelections hm,
      DayPlan.labelAt_intervals_following hm]
  have hsame : own.map (·.selects env before') = others.map (·.selects env before') →
      (t'.day e.weekday).Keeps (t.day before'.weekday) := by
    intro hselects
    refine hiff.2 fun minute _ label hlabel => ?_
    have hrule : own.map rule = others.map rule :=
      (map_rule_of_mapM hown).trans (map_rule_of_mapM hothers).symm
    rw [said_congr hrule hselects] at hlabel
    exact ⟨label, by rw [hlabel]; rfl, Label.Agrees.refl label⟩
  refine ⟨own, others, hown, hothers, hiff, hsame, fun hmonth => hsame ?_⟩
  have hmapM : rules.mapM (ofRule before'.yearMonth) = rules.mapM (ofRule e.yearMonth) := by
    rcases hmonth with hmonth | hdates
    · rw [hmonth]
    · exact mapM_ofRule_eq_of_no_dates hdates _ _
  rw [hown, hothers] at hmapM
  rw [Except.ok.inj hmapM]

/-- Friday, 31 December 2021. -/
def lastOfYear : Date := ⟨738520, by decide, by decide⟩

/-- Saturday, 1 January 2022. -/
def firstOfYear : Date := ⟨738521, by decide, by decide⟩

/-- The late bar, whose rules have no dates, is open past midnight at the turn of the year. -/
theorem keeps_lateBar :
    ∃ t t', around WeekPlan.lateBar {} lastOfYear = .ok t ∧
      around WeekPlan.lateBar {} firstOfYear = .ok t' ∧
      (t'.day firstOfYear.weekday).Keeps (t.day lastOfYear.weekday) := by
  obtain ⟨t, ht⟩ : ∃ t, around WeekPlan.lateBar {} lastOfYear = .ok t := ⟨_, rfl⟩
  obtain ⟨t', ht'⟩ : ∃ t, around WeekPlan.lateBar {} firstOfYear = .ok t := ⟨_, rfl⟩
  obtain ⟨_, _, _, _, _, _, hkeeps⟩ := keeps_iff_said ht ht' rfl
  exact ⟨t, t', ht, ht', hkeeps (.inr rfl)⟩

/-- Open on the night of the 31st of December, from 22:00 to 02:00. -/
def newYearsEve : Rule :=
  { id := ⟨"nye"⟩, dates := [.single (.ofMonthDay 12 31)], times := [.fixed 1320 120] }

/-- At the turn of the year the hours after midnight are handed on and not kept. -/
theorem not_keeps_newYearsEve :
    ∃ t t', around [newYearsEve] {} lastOfYear = .ok t ∧
      around [newYearsEve] {} firstOfYear = .ok t' ∧
      ¬(t'.day firstOfYear.weekday).Keeps (t.day lastOfYear.weekday) := by
  refine ⟨_, _, rfl, rfl, fun hkeeps => ?_⟩
  obtain ⟨iv, hiv, _⟩ := hkeeps ⟨0, 120, newYearsEve.label, by decide, by decide, by decide⟩
    (by decide +kernel) 60 (by decide)
  exact absurd (hiv.symm.trans (by decide +kernel)) (Option.some_ne_none iv)

end Timetable

end OpeningHours
