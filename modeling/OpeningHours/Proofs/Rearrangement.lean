import OpeningHours.Proofs.Lookup
import OpeningHours.Proofs.Partition
import OpeningHours.Proofs.Return
import Mathlib.Data.List.Perm.Basic

/-!
# The order of what a rule lists does not matter

The order of the rules counts: each is heard over those before it. The order in which one rule
lists its spans of time or its selectors counts for nothing, though it shows in the plan of a day.
Of two spans that overlap, the one laid last keeps its length and cuts the other, so the intervals
of the day stop and start at other minutes.

But they all bear the label of their rule. What is said of a minute is therefore the same, and
every answer is read off that: what holds from an instant on by the label of its minute, what
holds at it by that label and by the label of the minute before, and the segments because a week
has one canonical partition only. A search sees nothing but segments.
-/

namespace OpeningHours

/-- Two rules that differ only in the order of what they list. -/
structure Rule.Rearranges (r r' : Rule) : Prop where
  id : r.id = r'.id
  kind : r.kind = r'.kind
  years : r.years.Perm r'.years
  weeks : r.weeks.Perm r'.weeks
  dates : r.dates.Perm r'.dates
  weekdays : r.weekdays.Perm r'.weekdays
  holidays : r.holidays.Perm r'.holidays
  times : r.times.Perm r'.times
  status : r.status = r'.status
  comment? : r.comment? = r'.comment?

/-! ## A rule and its days -/

namespace Rule.Rearranges

variable {r r' : Rule}

theorem symm (h : r.Rearranges r') : r'.Rearranges r where
  id := h.id.symm
  kind := h.kind.symm
  years := h.years.symm
  weeks := h.weeks.symm
  dates := h.dates.symm
  weekdays := h.weekdays.symm
  holidays := h.holidays.symm
  times := h.times.symm
  status := h.status.symm
  comment? := h.comment?.symm

theorem label_eq (h : r.Rearranges r') : r.label = r'.label := by
  unfold Rule.label Rule.isFallback
  rw [h.id, h.kind, h.status, h.comment?]

theorem revise_eq (h : r.Rearranges r') : r.revise = r'.revise := by
  unfold Rule.revise
  rw [h.kind, h.label_eq]

theorem hasDates_eq (h : r.Rearranges r') : r.hasDates = r'.hasDates := by
  unfold Rule.hasDates
  rw [h.dates.isEmpty_eq]

theorem spansOn_perm (h : r.Rearranges r') (env : Setting) (d : Date) :
    (r.spansOn env d).Perm (r'.spansOn env d) := by
  unfold Rule.spansOn
  rw [h.times.isEmpty_eq]
  split
  · exact List.Perm.refl _
  · exact h.times.map _

end Rule.Rearranges

namespace Selection

variable {r r' : Rule} {rules rules' : List Rule} {seen : YearMonth} {env : Setting} {d : Date}
  {s s' : Selection} {selections selections' : List Selection}

/-- Two selections that differ only in the order of what their rules list. -/
structure Rearranges (s s' : Selection) : Prop where
  rule : s.rule.Rearranges s'.rule
  spans : s.spans.Perm s'.spans

theorem exists_ofRule_of_rearranges (h : r.Rearranges r') (hs : ofRule seen r = .ok s) :
    ∃ s', ofRule seen r' = .ok s' ∧ s.Rearranges s' := by
  obtain ⟨hyears, rfl, spans, hdates, hflat⟩ := ofRule_eq_ok_iff.1 hs
  obtain ⟨spans', hdates', hperm⟩ :=
    List.perm_comp_forall₂ h.dates.symm (mapM_eq_ok_iff_forall₂.1 hdates)
  refine ⟨⟨r', spans'.flatten⟩, ofRule_eq_ok_iff.2 ⟨?_, rfl, spans', ?_, rfl⟩, h, ?_⟩
  · intro years hmem
    exact hyears years (h.years.mem_iff.2 hmem)
  · exact mapM_eq_ok_iff_forall₂.2 hdates'
  · rw [hflat]
    exact hperm.symm.flatten

theorem exists_mapM_ofRule_of_rearranges (h : List.Forall₂ Rule.Rearranges rules rules')
    (hsel : rules.mapM (ofRule seen) = .ok selections) :
    ∃ selections', rules'.mapM (ofRule seen) = .ok selections' ∧
      List.Forall₂ Rearranges selections selections' := by
  simp only [mapM_eq_ok_iff_forall₂] at hsel ⊢
  induction h generalizing selections with
  | nil =>
      cases hsel
      exact ⟨[], .nil, .nil⟩
  | cons hr _ ih =>
      cases hsel with
      | cons hs hlater =>
          obtain ⟨s', hs', hss'⟩ := exists_ofRule_of_rearranges hr hs
          obtain ⟨later', hlater', hall⟩ := ih hlater
          exact ⟨s' :: later', .cons hs' hlater', .cons hss' hall⟩

/-! ## What the rules say -/

theorem Rearranges.selects_eq (h : s.Rearranges s') (env : Setting) (d : Date) :
    s.selects env d = s'.selects env d := by
  unfold selects selectsYear selectsWeek selectsDay
  rw [h.rule.years.isEmpty_eq, h.rule.years.any_eq, h.rule.weeks.isEmpty_eq, h.rule.weeks.any_eq,
    h.rule.hasDates_eq, h.spans.any_eq, h.rule.weekdays.isEmpty_eq, h.rule.weekdays.any_eq,
    h.rule.holidays.isEmpty_eq, h.rule.holidays.any_eq]

theorem Rearranges.reviseAt_eq (h : s.Rearranges s') (env : Setting) (d : Date) (minute : Nat)
    (heard : Option Label) : reviseAt env d minute heard s = reviseAt env d minute heard s' := by
  unfold reviseAt
  rw [h.selects_eq, h.rule.revise_eq, (h.rule.spansOn_perm env d).any_eq]

/-- What the rules say of a minute does not depend on the order of what they list. -/
theorem said_eq_of_rearranges (h : List.Forall₂ Rearranges selections selections')
    (env : Setting) (d : Date) (minute : Nat) :
    said env d selections minute = said env d selections' minute := by
  unfold said
  generalize (none : Option Label) = heard
  induction h generalizing heard with
  | nil => rfl
  | cons hs _ ih => rw [List.foldl_cons, List.foldl_cons, hs.reviseAt_eq, ih]

end Selection

/-! ## What is read off a day -/

namespace DayPlan

variable {rules rules' : List Rule} {env : Setting} {d : Date} {a b day : DayPlan} {minute : Nat}

/-- From its own month a day hears the same from rules that differ in the order of what they list. -/
theorem InOwnMonth.labelAt_eq (h : List.Forall₂ Rule.Rearranges rules rules')
    (ha : a.InOwnMonth rules env d) (hb : b.InOwnMonth rules' env d)
    (hm : minute < minutesPerDay) : a.intervals.labelAt minute = b.intervals.labelAt minute := by
  obtain ⟨selections, before, hsel, hbefore, rfl⟩ := ha
  obtain ⟨selections', before', hsel', hbefore', rfl⟩ := hb
  obtain ⟨_, hsel'', hall⟩ := Selection.exists_mapM_ofRule_of_rearranges h hsel
  cases hsel'.symm.trans hsel''
  obtain rfl : before = before' := Date.ext (by omega)
  rw [labelAt_intervals_following hm, labelAt_intervals_following hm,
    Selection.said_eq_of_rearranges hall, Selection.said_eq_of_rearranges hall]

end DayPlan

namespace Timetable

variable {rules rules' : List Rule} {env : Setting} {d : Date} {t t' : Timetable}

theorem exists_around_of_rearranges (h : List.Forall₂ Rule.Rearranges rules rules')
    (ht : around rules env d = .ok t) : ∃ t', around rules' env d = .ok t' := by
  obtain ⟨w, hmonday, hsel⟩ := exists_around_eq_ok_iff.1 ⟨t, ht⟩
  refine exists_around_eq_ok_iff.2 ⟨w, hmonday, fun s hs => ?_⟩
  obtain ⟨_, hsel⟩ := hsel s hs
  obtain ⟨selections', hsel', _⟩ := Selection.exists_mapM_ofRule_of_rearranges h hsel
  exact ⟨selections', hsel'⟩

theorem week_eq_of_around (ht : around rules env d = .ok t) (ht' : around rules' env d = .ok t') :
    t.week = t'.week :=
  Week.ext (Option.some.inj ((around_eq_ok_iff.1 ht).1.symm.trans (around_eq_ok_iff.1 ht').1))

/-- No segment of a week goes on like the one before it. -/
theorem isChain_segments (t : Timetable) :
    t.segments.IsChain fun x y => x.stop = y.start → x.standing ≠ y.standing :=
  Segment.isChain_standing_coalesce _

section Pair

variable (h : List.Forall₂ Rule.Rearranges rules rules') (ht : around rules env d = .ok t)
  (ht' : around rules' env d = .ok t')

include h ht ht'

theorem labelAt_eq_of_rearranges (w : Weekday) {minute : Nat} (hm : minute < minutesPerDay) :
    (t.day w).intervals.labelAt minute = (t'.day w).intervals.labelAt minute := by
  have hmonday := (around_eq_ok_iff.1 ht).1
  have hin := Week.monday?_date hmonday w.index
  rw [← Week.weekday_date hmonday w]
  refine DayPlan.InOwnMonth.labelAt_eq h (day_inOwnMonth ht hin) (day_inOwnMonth ht' ?_) hm
  rw [hin, week_eq_of_around ht ht']

theorem standingFrom_eq_of_rearranges (i : Instant) : t.standingFrom i = t'.standingFrom i :=
  Standing.ofInterval?_eq (labelAt_eq_of_rearranges h ht ht' i.date.weekday i.minute_lt)

theorem standingAt_eq_of_rearranges (i : Instant) : t.standingAt i = t'.standingAt i := by
  have hm := i.minute_lt
  refine Standing.ofInterval?_eq ?_
  rw [DayPlan.map_label_at? (tidy_day ht _).intervals, DayPlan.map_label_at? (tidy_day ht' _).intervals,
    labelAt_eq_of_rearranges h ht ht' _ hm,
    labelAt_eq_of_rearranges h ht ht' _ (show i.minute - 1 < minutesPerDay by omega)]

/-- Two weeks that say the same from each instant on have the same segments. -/
theorem segments_eq_of_rearranges : t.segments = t'.segments := by
  have hsaid : t.standingFrom = t'.standingFrom := funext (standingFrom_eq_of_rearranges h ht ht')
  have htrace := traces_segments ht
  rw [hsaid, week_eq_of_around ht ht'] at htrace
  exact htrace.unique (traces_segments ht') t.isChain_segments t'.isChain_segments

end Pair

end Timetable

/-! ## Searches -/

namespace ChangeSearch

variable {s : ChangeSearch} {rules' : List Rule} {k : Nat} {t : Timetable} {p : Progress}
  {o : Outlook}

/-- The same search among other rules. -/
def withRules (s : ChangeSearch) (rules : List Rule) : ChangeSearch := { s with rules := rules }

section Rearranged

variable (h : List.Forall₂ Rule.Rearranges s.rules rules')

include h

theorem LooksAt.exists_withRules (hlooks : s.LooksAt k t) :
    ∃ t', (s.withRules rules').LooksAt k t' ∧ t.segments = t'.segments := by
  obtain ⟨hwithin, anchor, hanchor, ht⟩ := hlooks
  obtain ⟨t', ht'⟩ := Timetable.exists_around_of_rearranges h ht
  exact ⟨t', ⟨hwithin, anchor, hanchor, ht'⟩, Timetable.segments_eq_of_rearranges h ht ht'⟩

/-- A step sees the segments of one week, which are the same. -/
theorem step_withRules (hstep : s.step k = .ok p) : (s.withRules rules').step k = .ok p := by
  rcases step_cases hstep with ⟨o, rfl, ⟨rfl, hend⟩ | ⟨t, hlooks, hsome⟩⟩ | ⟨rfl, t, hlooks, hnone⟩
  · exact step_eq_lasting hend
  · obtain ⟨t', hlooks', hsegments⟩ := hlooks.exists_withRules h
    rw [hsegments] at hsome
    exact step_eq_settled hlooks' hsome
  · obtain ⟨t', hlooks', hsegments⟩ := hlooks.exists_withRules h
    rw [hsegments] at hnone
    exact step_eq_searching ⟨t', hlooks', hnone⟩

theorem finish_withRules (hfinish : s.finish k = .ok o) : (s.withRules rules').finish k = .ok o := by
  induction k using finish.induct s with
  | case1 k e hstep =>
      rw [finish_eq, hstep] at hfinish
      cases hfinish
  | case2 k o' hstep =>
      rw [finish_of_settled hstep] at hfinish
      rw [finish_of_settled (step_withRules h hstep), hfinish]
  | case3 k next hstep _ ih =>
      rw [finish_of_searching hstep] at hfinish
      rw [finish_of_searching (step_withRules h hstep)]
      exact ih hfinish

end Rearranged

theorem run_of_rearranges {rules rules' : List Rule} (h : List.Forall₂ Rule.Rearranges rules rules')
    {env : Setting} {origin : Instant} {direction : Direction}
    (hrun : run rules env origin direction = .ok o) : run rules' env origin direction = .ok o := by
  obtain ⟨now, hnow, hfinish⟩ := (run_eq_ok_iff (h := ⟨rules, env⟩)).1 hrun
  obtain ⟨t, ht, hnow⟩ := bind_eq_ok_iff.1 hnow
  obtain ⟨t', ht'⟩ := Timetable.exists_around_of_rearranges h ht
  refine (run_eq_ok_iff (h := ⟨rules', env⟩)).2 ⟨now, bind_eq_ok_iff.2 ⟨t', ht', ?_⟩, ?_⟩
  · rw [← hnow, Timetable.standingFrom_eq_of_rearranges h ht ht']
  · exact finish_withRules h hfinish

end ChangeSearch

namespace Hours

variable {rules rules' : List Rule}

theorem rearranges_symm (h : List.Forall₂ Rule.Rearranges rules rules') :
    List.Forall₂ Rule.Rearranges rules' rules :=
  (h.imp fun _ _ hr => hr.symm).flip

/--
**The order of what a rule lists does not matter.**

Let the rules of two lists be the same, in the same order, but for the order of what each of them
lists. For every date the one list has a timetable if the other has, with the same segments and
the same standing at every instant and from it on; and whatever change a search finds by the one
list, forward or back, it finds by the other.
-/
theorem answers_eq_of_rearranges (h : List.Forall₂ Rule.Rearranges rules rules') (env : Setting) :
    (∀ d, ((∃ t, timetable ⟨rules, env⟩ d = .ok t) ↔ ∃ t', timetable ⟨rules', env⟩ d = .ok t') ∧
      ∀ t t', timetable ⟨rules, env⟩ d = .ok t → timetable ⟨rules', env⟩ d = .ok t' →
        t.segments = t'.segments ∧
          ∀ i, t.standingAt i = t'.standingAt i ∧ t.standingFrom i = t'.standingFrom i) ∧
    ∀ i o, (nextChange ⟨rules, env⟩ i = .ok o ↔ nextChange ⟨rules', env⟩ i = .ok o) ∧
      (previousChange ⟨rules, env⟩ i = .ok o ↔ previousChange ⟨rules', env⟩ i = .ok o) := by
  have h' := rearranges_symm h
  refine ⟨fun d => ⟨⟨?_, ?_⟩, ?_⟩, fun i o => ⟨⟨?_, ?_⟩, ⟨?_, ?_⟩⟩⟩
  · rintro ⟨t, ht⟩
    exact Timetable.exists_around_of_rearranges h ht
  · rintro ⟨t', ht'⟩
    exact Timetable.exists_around_of_rearranges h' ht'
  · intro t t' ht ht'
    refine ⟨Timetable.segments_eq_of_rearranges h ht ht', fun i => ⟨?_, ?_⟩⟩
    · exact Timetable.standingAt_eq_of_rearranges h ht ht' i
    · exact Timetable.standingFrom_eq_of_rearranges h ht ht' i
  all_goals intro hrun
  · exact ChangeSearch.run_of_rearranges h hrun
  · exact ChangeSearch.run_of_rearranges h' hrun
  · exact ChangeSearch.run_of_rearranges h hrun
  · exact ChangeSearch.run_of_rearranges h' hrun

/-- A bistro with a morning and an afternoon that overlap. -/
def bistro : Rule :=
  { id := ⟨"bistro"⟩, weekdays := [.single .mon, .single .wed], times := [.fixed 480 720, .fixed 600 840] }

/-- The bistro with the afternoon before the morning, and Wednesday before Monday. -/
def bistroBackwards : Rule :=
  { bistro with weekdays := [.single .wed, .single .mon], times := [.fixed 600 840, .fixed 480 720] }

/-- On 30 June 2021 the intervals of the bistro meet at 10:00 or at 12:00; its segments are the same. -/
theorem answers_eq_of_rearranges_bistro :
    List.Forall₂ Rule.Rearranges [bistro] [bistroBackwards] ∧ ∃ t t',
      timetable ⟨[bistro], {}⟩ Timetable.lastOfJune = .ok t ∧
      timetable ⟨[bistroBackwards], {}⟩ Timetable.lastOfJune = .ok t' ∧
      (t.day .wed).intervals.map Interval.span = [(480, 600), (600, 840)] ∧
      (t'.day .wed).intervals.map Interval.span = [(480, 720), (720, 840)] ∧
      t.segments = t'.segments := by
  have hbistro : List.Forall₂ Rule.Rearranges [bistro] [bistroBackwards] :=
    List.Forall₂.cons
      { id := rfl
        kind := rfl
        years := .nil
        weeks := .nil
        dates := .nil
        weekdays := .swap _ _ _
        holidays := .nil
        times := .swap _ _ _
        status := rfl
        comment? := rfl }
      .nil
  obtain ⟨hdates, _⟩ := answers_eq_of_rearranges hbistro {}
  obtain ⟨t, ht⟩ : ∃ t, timetable ⟨[bistro], {}⟩ Timetable.lastOfJune = .ok t := ⟨_, rfl⟩
  obtain ⟨t', ht'⟩ := (hdates Timetable.lastOfJune).1.1 ⟨t, ht⟩
  refine ⟨hbistro, t, t', ht, ht', ?_, ?_, ((hdates Timetable.lastOfJune).2 t t' ht ht').1⟩
  · cases ht
    decide +kernel
  · cases ht'
    decide +kernel

end Hours

end OpeningHours
