import OpeningHours.Proofs.DayPlan
import OpeningHours.Plan.Week
import Mathlib.Data.List.Forall2

/-!
# A week says of each minute what its rules say

Every day of a planned week comes to the same thing: the rules evaluated on that day alone,
and over them what the day before hands on. The rules that are passed over because their
dates lie outside the week would not have selected a day of it, and the eve is evaluated like
any other day before. So what is in force at a minute is what the rules say of it as a minute
past 24:00 of the day before, and, where they say nothing, what they say of it on the day.
-/

namespace OpeningHours

theorem bind_eq_ok_iff {ε α β : Type} {x : Except ε α} {f : α → Except ε β} {b : β} :
    x >>= f = .ok b ↔ ∃ a, x = .ok a ∧ f a = .ok b := by
  cases x with
  | error e => simp [bind, Except.bind]
  | ok a => simp [bind, Except.bind]

/-- A run over a list gives a result in which every element is the result of one. -/
theorem mapM_eq_ok_iff_forall₂ {ε α β : Type} {f : α → Except ε β} {l : List α} {results : List β} :
    l.mapM f = .ok results ↔ List.Forall₂ (fun a b => f a = .ok b) l results := by
  induction l generalizing results with
  | nil =>
      rw [List.mapM_nil, List.forall₂_nil_left_iff]
      exact ⟨fun h => (Except.ok.inj h).symm, fun h => congrArg Except.ok h.symm⟩
  | cons a rest ih =>
      rw [List.mapM_cons, List.forall₂_cons_left_iff]
      refine ⟨?_, ?_⟩
      · intro h
        obtain ⟨b, hb, h⟩ := bind_eq_ok_iff.1 h
        obtain ⟨later, hlater, h⟩ := bind_eq_ok_iff.1 h
        cases h
        exact ⟨b, later, hb, ih.1 hlater, rfl⟩
      · rintro ⟨b, later, hb, hlater, rfl⟩
        exact bind_eq_ok_iff.2 ⟨b, hb, bind_eq_ok_iff.2 ⟨later, ih.2 hlater, rfl⟩⟩

/-! ## Rules seen from a month -/

namespace Selection

variable {r : Rule} {seen : YearMonth} {s : Selection}

theorem checkYears_eq_ok_iff : checkYears r = .ok () ↔ ∀ years ∈ r.years, years.IsLegal := by
  unfold checkYears
  split
  · rename_i years hfind
    have hillegal : ¬years.IsLegal := by simpa using List.find?_some hfind
    refine ⟨?_, ?_⟩
    · intro h
      cases h
    · intro h
      exact absurd (h years (List.mem_of_find?_eq_some hfind)) hillegal
  · rename_i hfind
    refine ⟨fun _ years hyears => ?_, fun _ => rfl⟩
    simpa using List.find?_eq_none.1 hfind years hyears

/-- When a rule can be seen from a month, and what comes of it. -/
theorem ofRule_eq_ok_iff :
    ofRule seen r = .ok s ↔ (∀ years ∈ r.years, years.IsLegal) ∧ s.rule = r ∧
      ∃ spans, r.dates.mapM (·.spans seen) = .ok spans ∧ s.spans = spans.flatten := by
  unfold ofRule
  rw [← checkYears_eq_ok_iff]
  refine ⟨?_, ?_⟩
  · intro h
    obtain ⟨_, hyears, h⟩ := bind_eq_ok_iff.1 h
    obtain ⟨flat, hspans, h⟩ := bind_eq_ok_iff.1 h
    cases h
    unfold spansOf at hspans
    split at hspans
    · rename_i spans hdates
      cases hspans
      exact ⟨hyears, rfl, spans, hdates, rfl⟩
    · cases hspans
  · rintro ⟨hyears, rfl, spans, hdates, hflat⟩
    refine bind_eq_ok_iff.2 ⟨(), hyears, bind_eq_ok_iff.2 ⟨s.spans, ?_, rfl⟩⟩
    unfold spansOf
    rw [hdates, hflat]

end Selection

/-! ## Rules passed over -/

theorem DaySpan.contains_iff {s : DaySpan} {d : Date} :
    s.contains d = true ↔ s.start ≤ d ∧ d ≤ s.stop := by
  simp [contains]

theorem DaySpan.intersect?_isSome {a b : DaySpan} {d : Date} (ha : a.contains d = true)
    (hb : b.contains d = true) : (a.intersect? b).isSome = true := by
  rw [contains_iff] at ha hb
  simp only [Date.le_iff] at ha hb
  unfold intersect? Date.later Date.earlier
  simp only [Date.le_iff]
  split <;> split <;> rw [if_pos (by omega)] <;> rfl

namespace Selection

variable {env : Setting} {d : Date} {selections : List Selection} {span : DaySpan}

/-- A rule that selects a day of a span meets the span. -/
theorem meets_of_selects {s : Selection} (h : s.selects env d = true)
    (hd : span.contains d = true) : s.meets span = true := by
  unfold selects at h
  unfold meets
  simp only [Bool.and_eq_true, Bool.or_eq_true] at h ⊢
  obtain ⟨⟨_, hdates⟩, _⟩ := h
  refine hdates.imp id fun hany => ?_
  obtain ⟨dates, hmem, hcontains⟩ := List.any_eq_true.1 hany
  exact List.any_eq_true.2 ⟨dates, hmem, DaySpan.intersect?_isSome hcontains hd⟩

theorem foldl_applyTo_filter_meets {day : DayPlan} (hd : span.contains day.date = true) :
    (selections.filter (·.meets span)).foldl (applyTo env) day =
      selections.foldl (applyTo env) day := by
  induction selections generalizing day with
  | nil => rfl
  | cons s rest ih =>
      have hd' : span.contains (s.applyTo env day).date = true := by
        rw [DayPlan.date_applyTo]
        exact hd
      by_cases hmeets : s.meets span = true
      · rw [List.filter_cons_of_pos (p := (meets · span)) hmeets, List.foldl_cons, List.foldl_cons,
          ih hd']
      · -- a rule that does not meet the span would not have selected the day
        have hskip : s.applyTo env day = day := by
          unfold applyTo
          rw [if_neg fun hsel => hmeets (meets_of_selects hsel hd)]
        rw [List.filter_cons_of_neg (p := (meets · span)) hmeets, List.foldl_cons, hskip, ih hd]

/-- The rules that do not meet a span change nothing on its days. -/
theorem ofSelections_filter_meets (hd : span.contains d = true) :
    DayPlan.ofSelections env d (selections.filter (·.meets span)) =
      DayPlan.ofSelections env d selections :=
  foldl_applyTo_filter_meets hd

end Selection

/-! ## A day and the day before -/

namespace DayPlan

variable {env : Setting} {before d : Date} {selections : List Selection}

/-- The plan of a day from the rules, with what the day before hands on laid over it. -/
def following (env : Setting) (selections : List Selection) (before d : Date) : DayPlan :=
  ((ofSelections env d selections).receive (ofSelections env before selections).outgoing).settle

@[simp] theorem date_following : (following env selections before d).date = d :=
  date_ofSelections

@[simp] theorem outgoing_following :
    (following env selections before d).outgoing = (ofSelections env d selections).outgoing := rfl

theorem tidy_following : (following env selections before d).Tidy :=
  tidy_settle ⟨tidy_ofSelections.intervals, tidy_ofSelections.outgoing⟩

/-- What the day before says of a minute past 24:00 goes before what the day itself says of it. -/
theorem labelAt_intervals_following {minute : Nat} (hm : minute < minutesPerDay) :
    (following env selections before d).intervals.labelAt minute =
      (Selection.said env before selections (minute + minutesPerDay)).or
        (Selection.said env d selections minute) := by
  have hout : (ofSelections env before selections).outgoing.Tidy := tidy_ofSelections.outgoing
  have hday : ((ofSelections env d selections).receive
      (ofSelections env before selections).outgoing).Tidy :=
    ⟨tidy_ofSelections.intervals, tidy_ofSelections.outgoing⟩
  unfold following
  rw [labelAt_intervals_settle hday]
  simp only [receive, incoming_ofSelections, List.nil_append]
  rw [Timeline.labelAt_of_perm (List.reverse_perm _) hout.pairwise_apart]
  rw [labelAt_outgoing_ofSelections hm, labelAt_intervals_ofSelections hm]

end DayPlan

/-! ## The days of a week -/

namespace Week

theorem startingOn?_eq_some_iff {d : Date} {w : Week} : startingOn? d = some w ↔ w.first = d := by
  unfold startingOn?
  have h₁ := w.eve_ge
  have h₂ := w.next_le
  split
  · rw [Option.some.injEq, Week.ext_iff]
    exact eq_comm
  · simp only [reduceCtorEq, false_iff]
    rintro rfl
    omega

/-- The day before the day at a place of the week. -/
def dayBefore (w : Week) (i : Fin 7) : Date :=
  ⟨w.first.number + i.val - 1, by have := w.eve_ge; omega, by have := w.next_le; omega⟩

theorem dayBefore_eq_iff {w : Week} {before : Date} {i : Fin 7} :
    w.dayBefore i = before ↔ before.number + 1 = (w.date i.castSucc).number := by
  rw [Date.ext_iff]
  simp only [dayBefore, date, Fin.val_castSucc]
  omega

theorem span_contains_date (w : Week) (i : Fin 7) : w.span.contains (w.date i.castSucc) = true := by
  rw [DaySpan.contains_iff]
  simp only [Date.le_iff, span, last, date, Fin.val_castSucc]
  omega

end Week

namespace WeekPlan

variable {rules : List Rule} {first : Date} {seen : YearMonth} {env : Setting} {p : WeekPlan}
  {selections : List Selection}

/-- When planning a week succeeds, and what comes of it. -/
theorem make_eq_ok_iff :
    make rules first seen env = .ok p ↔ p.week.first = first ∧ p.seen = seen ∧ p.rules = rules ∧
      ∃ selections, rules.mapM (Selection.ofRule seen) = .ok selections ∧
        p.days = daysOf env p.week selections := by
  unfold make
  refine ⟨?_, ?_⟩
  · intro h
    split at h
    · cases h
    · rename_i week hweek
      obtain ⟨selections, hsel, hp⟩ := bind_eq_ok_iff.1 h
      cases hp
      exact ⟨Week.startingOn?_eq_some_iff.1 hweek, rfl, rfl, selections, hsel, rfl⟩
  · intro hgiven
    obtain ⟨hfirst, hseen, hrules, selections, hsel, hdays⟩ := hgiven
    rw [Week.startingOn?_eq_some_iff.2 hfirst]
    refine bind_eq_ok_iff.2 ⟨selections, hsel, congrArg Except.ok ?_⟩
    exact WeekPlan.ext hseen.symm rfl hdays.symm hrules.symm

/-- Every day of a week follows the day before it. -/
theorem daysOf_eq (env : Setting) (w : Week) (selections : List Selection) :
    daysOf env w selections = (List.finRange 7).map fun i =>
      .following env selections (w.dayBefore i) (w.date i.castSucc) := by
  have hmeeting : ∀ j : Fin 7,
      DayPlan.ofSelections env (w.date j.castSucc) (selections.filter (·.meets w.span)) =
        DayPlan.ofSelections env (w.date j.castSucc) selections :=
    fun j => Selection.ofSelections_filter_meets (w.span_contains_date j)
  refine List.ext_getElem (by simp [length_daysOf]) fun i _ hi => ?_
  have hi' : i < 7 := by simpa using hi
  simp only [daysOf, linked, Week.days, List.map_map, List.getElem_zipWith, List.getElem_map,
    List.getElem_finRange, Function.comp_apply, hmeeting]
  cases i with
  | zero =>
      -- only the first day has the eve before it
      have heve : w.eve = w.dayBefore 0 := Date.ext (by simp [Week.eve, Week.dayBefore])
      exact congrArg (fun e => DayPlan.following env selections e (w.date 0)) heve
  | succ j =>
      have hbefore : w.date (Fin.castSucc ⟨j, by omega⟩) = w.dayBefore ⟨j + 1, hi'⟩ := by
        refine Date.ext ?_
        simp only [Week.date, Week.dayBefore, Fin.val_castSucc]
        omega
      simp only [List.getElem_cons_succ, List.getElem_map, List.getElem_finRange,
        Function.comp_apply, hmeeting]
      exact congrArg (fun e => DayPlan.following env selections e (w.date ⟨j + 1, by omega⟩)) hbefore

/-- A planned week has, at every place, the day there with what the day before it hands on. -/
theorem day_eq_following (h : make rules first seen env = .ok p) :
    ∃ selections, rules.mapM (Selection.ofRule seen) = .ok selections ∧ ∀ w,
      p.day w = .following env selections (p.week.dayBefore w.index) (p.week.date w.index.castSucc) := by
  obtain ⟨_, _, _, selections, hsel, hdays⟩ := make_eq_ok_iff.1 h
  refine ⟨selections, hsel, fun w => ?_⟩
  simp only [day, List.get_eq_getElem, hdays, daysOf_eq, List.getElem_map, List.getElem_finRange]
  rfl

/--
**A week says of each minute what its rules say.**

What is in force at a minute is what the rules say of it as a minute past 24:00 of the day
before; where they say nothing of it there, it is what they say of it on the day itself. For
the first day the day before is the eve.
-/
theorem label_inForce?_eq_said (h : make rules first seen env = .ok p) :
    ∃ selections, rules.mapM (Selection.ofRule seen) = .ok selections ∧
      ∀ w, (p.day w).date.number = first.number + w.index ∧
        ∃ before : Date, before.number + 1 = (p.day w).date.number ∧
          ∀ minute < minutesPerDay, ((p.day w).inForce? minute).map Interval.label =
            (Selection.said env before selections (minute + minutesPerDay)).or
              (Selection.said env (p.day w).date selections minute) := by
  obtain ⟨hfirst, _⟩ := make_eq_ok_iff.1 h
  obtain ⟨selections, hsel, hday⟩ := day_eq_following h
  refine ⟨selections, hsel, fun w => ?_⟩
  rw [hday w, DayPlan.date_following]
  refine ⟨?_, p.week.dayBefore w.index, ?_, fun minute hm => ?_⟩
  · rw [← hfirst]
    rfl
  · simp only [Week.dayBefore, Week.date, Fin.val_castSucc]
    omega
  · exact DayPlan.labelAt_intervals_following hm

/-- A bar that is open from 22:00 to 02:00; of the rest of the day nothing is known. -/
def lateBar : List Rule :=
  [{ id := ⟨"late"⟩, times := [.fixed 1320 120] },
    { id := ⟨"rest"⟩, kind := .fallback, status := .unknown }]

/-- On Monday 7 June 2021 the bar is open at 01:00 because of the eve, and unknown at noon. -/
theorem label_inForce?_lateBar :
    ∃ p, make lateBar ⟨738313, by decide, by decide⟩ ⟨2021, 6⟩ {} = .ok p ∧
      ((p.day .mon).inForce? 60).map Interval.label =
        some { status := .opened, rule? := some ⟨"late"⟩ } ∧
      ((p.day .mon).inForce? 720).map Interval.label =
        some { status := .unknown, fallback := true, rule? := some ⟨"rest"⟩ } := by
  refine ⟨_, rfl, ?_⟩
  obtain ⟨selections, hsel, hday⟩ := label_inForce?_eq_said (p := ⟨_, _, _, _, _⟩)
    (show make lateBar ⟨738313, by decide, by decide⟩ ⟨2021, 6⟩ {} = _ from rfl)
  cases hsel
  obtain ⟨hdate, before, hbefore, hminute⟩ := hday .mon
  obtain rfl : before = ⟨738312, by decide, by decide⟩ := by
    rw [hdate] at hbefore
    exact Date.ext ((Int.add_left_inj 1).1 hbefore)
  rw [hminute 60 (by decide), hminute 720 (by decide)]
  exact ⟨by decide +kernel, by decide +kernel⟩

end WeekPlan

end OpeningHours
