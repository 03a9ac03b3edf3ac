import OpeningHours.Hours
import OpeningHours.Proofs.OwnMonth

/-!
# The first fault of a list of rules

Before any rule is evaluated the whole list is looked at from a month: each rule for its years and
then for its dates, and the first fault is the answer. So a fault counts whether or not its rule
could have selected a day of the week.

A timetable looks at the list from the month of its date. Only where the week lies in two months
and some rule has dates does it look again, from the other month; elsewhere the second look would
find what the first one found. In either case it comes to an error exactly when some rule is at
fault from a month of the week. Every question asks for the timetable of its own date before
anything else, so every question comes to that same error.
-/

namespace OpeningHours

/-! ## Where a run over a list fails -/

theorem exists_eq_error_iff {ε α : Type} {x : Except ε α} :
    (∃ e, x = .error e) ↔ ¬∃ a, x = .ok a := by
  cases x with
  | error e => simp
  | ok a => simp

theorem bind_eq_error_iff {ε α β : Type} {x : Except ε α} {f : α → Except ε β} {e : ε} :
    x >>= f = .error e ↔ x = .error e ∨ ∃ a, x = .ok a ∧ f a = .error e := by
  cases x with
  | error fault => simp [bind, Except.bind]
  | ok a => simp [bind, Except.bind]

/-- What only makes something of a result has no error of its own. -/
theorem bind_pure_eq_error_iff {ε α β : Type} {x : Except ε α} {f : α → β} {e : ε} :
    (x >>= fun a => pure (f a)) = .error e ↔ x = .error e := by
  rw [bind_eq_error_iff]
  refine or_iff_left ?_
  rintro ⟨_, _, hpure⟩
  cases hpure

/-- A run over a list comes to the error of the first element that has one. -/
theorem mapM_eq_error_iff {ε α β : Type} {f : α → Except ε β} {l : List α} {e : ε} :
    l.mapM f = .error e ↔ ∃ before a after, l = before ++ a :: after ∧
      (∀ x ∈ before, ∃ b, f x = .ok b) ∧ f a = .error e := by
  induction l with
  | nil =>
      rw [List.mapM_nil]
      refine iff_of_false (fun h => by cases h) ?_
      intro hsplit
      obtain ⟨before, a, after, hnil, _⟩ := hsplit
      exact List.append_ne_nil_of_right_ne_nil before (List.cons_ne_nil a after) hnil.symm
  | cons head rest ih =>
      rw [List.mapM_cons, bind_eq_error_iff]
      constructor
      · intro h
        rcases h with hhead | ⟨b, hb, hrest⟩
        · exact ⟨[], head, rest, rfl, by simp, hhead⟩
        · obtain ⟨before, a, after, rfl, hbefore, ha⟩ := ih.1 (bind_pure_eq_error_iff.1 hrest)
          exact ⟨head :: before, a, after, rfl, List.forall_mem_cons.2 ⟨⟨b, hb⟩, hbefore⟩, ha⟩
      · intro hsplit
        obtain ⟨before, a, after, hl, hbefore, ha⟩ := hsplit
        cases before with
        | nil =>
            obtain ⟨rfl, _⟩ := List.cons.inj hl
            exact Or.inl ha
        | cons first before =>
            obtain ⟨rfl, hrest⟩ := List.cons.inj hl
            obtain ⟨⟨b, hb⟩, hbefore⟩ := List.forall_mem_cons.1 hbefore
            exact Or.inr ⟨b, hb,
              bind_pure_eq_error_iff.2 (ih.2 ⟨before, a, after, hrest, hbefore, ha⟩)⟩

theorem exists_mapM_eq_ok_iff {ε α β : Type} {f : α → Except ε β} {l : List α} :
    (∃ results, l.mapM f = .ok results) ↔ ∀ a ∈ l, ∃ b, f a = .ok b := by
  constructor
  · intro hgiven
    obtain ⟨results, h⟩ := hgiven
    have hall := mapM_eq_ok_iff_forall₂.1 h
    induction hall with
    | nil => exact List.forall_mem_nil _
    | cons hb hrest ih =>
        exact List.forall_mem_cons.2 ⟨⟨_, hb⟩, ih (mapM_eq_ok_iff_forall₂.2 hrest)⟩
  · intro hall
    cases hrun : l.mapM f with
    | ok results => exact ⟨results, rfl⟩
    | error e =>
        obtain ⟨before, a, after, rfl, _, ha⟩ := mapM_eq_error_iff.1 hrun
        obtain ⟨b, hb⟩ := hall a (List.mem_append_right before List.mem_cons_self)
        rw [ha] at hb
        cases hb

/-! ## Rules at fault -/

/-- The range has an end, and the end lies before the start. -/
def YearRange.RunsBack (r : YearRange) : Prop := ∃ stop, r.stop? = some stop ∧ stop < r.start

theorem YearRange.isLegal_iff {r : YearRange} : r.IsLegal ↔ ¬r.RunsBack := by
  unfold IsLegal RunsBack last
  cases r.stop? with
  | none => simp
  | some stop => simp [Int32.lt_iff_toInt_lt]

theorem YearRange.last_eq {r : YearRange} {stop : Int32} (h : r.stop? = some stop) :
    r.last = stop.toInt := by
  rw [last, h, Option.getD_some]

namespace Rule

variable {r : Rule} {seen : YearMonth} {e : HoursError}

/-- The rule makes no sense from a month, whichever days it would pick. -/
def IsFaulty (r : Rule) (seen : YearMonth) : Prop :=
  (∃ years ∈ r.years, years.RunsBack) ∨ ∃ dates ∈ r.dates, ∃ fault, dates.spans seen = .error fault

/-- The error that the ranges of a rule come to, read in their order, all years before all dates. -/
inductive FirstFault (r : Rule) (seen : YearMonth) : HoursError → Prop
  | years {before after : List YearRange} {range : YearRange} {stop : Int32}
      (hsplit : r.years = before ++ range :: after) (hbefore : ∀ years ∈ before, ¬years.RunsBack)
      (hstop : range.stop? = some stop) (hback : stop < range.start) :
      FirstFault r seen (.illegalYears range.start.toInt stop.toInt (some r.id))
  | dates {before after : List DateRange} {range : DateRange} {fault : DateFault}
      (hyears : ∀ years ∈ r.years, ¬years.RunsBack) (hsplit : r.dates = before ++ range :: after)
      (hbefore : ∀ dates ∈ before, ∃ spans, dates.spans seen = .ok spans)
      (hfault : range.spans seen = .error fault) :
      FirstFault r seen (.illegalDates fault (some r.id))

theorem FirstFault.rule?_eq (h : r.FirstFault seen e) : e.rule? = some r.id := by
  cases h with
  | years => rfl
  | dates => rfl

theorem FirstFault.isFaulty (h : r.FirstFault seen e) : r.IsFaulty seen := by
  cases h with
  | years hsplit _ hstop hback =>
      exact Or.inl ⟨_, hsplit ▸ List.mem_append_right _ List.mem_cons_self, _, hstop, hback⟩
  | dates _ hsplit _ hfault =>
      exact Or.inr ⟨_, hsplit ▸ List.mem_append_right _ List.mem_cons_self, _, hfault⟩

end Rule

namespace Selection

variable {r : Rule} {rules : List Rule} {seen : YearMonth} {e : HoursError}

theorem checkYears_eq_error_iff :
    checkYears r = .error e ↔ ∃ before range after stop, r.years = before ++ range :: after ∧
      (∀ years ∈ before, ¬years.RunsBack) ∧ range.stop? = some stop ∧ stop < range.start ∧
        e = .illegalYears range.start.toInt stop.toInt (some r.id) := by
  unfold checkYears
  constructor
  · intro h
    split at h
    · rename_i range hfind
      cases h
      obtain ⟨hrange, before, after, hsplit, hbefore⟩ := List.find?_eq_some_iff_append.1 hfind
      simp only [Bool.not_eq_true', decide_eq_false_iff_not, YearRange.isLegal_iff,
        not_not] at hrange
      obtain ⟨stop, hstop, hback⟩ := hrange
      refine ⟨before, range, after, stop, hsplit, ?_, hstop, hback, ?_⟩
      · simpa [YearRange.isLegal_iff] using hbefore
      · rw [YearRange.last_eq hstop]
    · cases h
  · intro hsplit
    obtain ⟨before, range, after, stop, hsplit, hbefore, hstop, hback, rfl⟩ := hsplit
    have hfind : r.years.find? (fun years => !decide years.IsLegal) = some range := by
      refine List.find?_eq_some_iff_append.2 ⟨?_, before, after, hsplit, ?_⟩
      · simpa [YearRange.isLegal_iff] using ⟨stop, hstop, hback⟩
      · simpa [YearRange.isLegal_iff] using hbefore
    simp only [hfind, YearRange.last_eq hstop]

theorem spansOf_eq_error_iff :
    spansOf seen r = .error e ↔ ∃ before range after fault, r.dates = before ++ range :: after ∧
      (∀ dates ∈ before, ∃ spans, dates.spans seen = .ok spans) ∧
        range.spans seen = .error fault ∧ e = .illegalDates fault (some r.id) := by
  unfold spansOf
  constructor
  · intro h
    split at h
    · cases h
    · rename_i fault hrun
      cases h
      obtain ⟨before, range, after, hsplit, hbefore, hfault⟩ := mapM_eq_error_iff.1 hrun
      exact ⟨before, range, after, fault, hsplit, hbefore, hfault, rfl⟩
  · intro hsplit
    obtain ⟨before, range, after, fault, hsplit, hbefore, hfault, rfl⟩ := hsplit
    rw [mapM_eq_error_iff.2 ⟨before, range, after, hsplit, hbefore, hfault⟩]

/-- A rule comes to the first fault of its ranges. -/
theorem ofRule_eq_error_iff : ofRule seen r = .error e ↔ r.FirstFault seen e := by
  unfold ofRule
  rw [bind_eq_error_iff, checkYears_eq_error_iff]
  constructor
  · intro h
    rcases h with ⟨before, range, after, stop, hsplit, hbefore, hstop, hback, rfl⟩ |
      ⟨_, hyears, h⟩
    · exact .years hsplit hbefore hstop hback
    · obtain ⟨before, range, after, fault, hsplit, hbefore, hfault, rfl⟩ :=
        spansOf_eq_error_iff.1 (bind_pure_eq_error_iff.1 h)
      refine .dates ?_ hsplit hbefore hfault
      exact fun years hmem => YearRange.isLegal_iff.1 (checkYears_eq_ok_iff.1 hyears years hmem)
  · intro h
    cases h with
    | years hsplit hbefore hstop hback =>
        exact Or.inl ⟨_, _, _, _, hsplit, hbefore, hstop, hback, rfl⟩
    | dates hyears hsplit hbefore hfault =>
        refine Or.inr ⟨(), ?_, bind_pure_eq_error_iff.2 ?_⟩
        · exact checkYears_eq_ok_iff.2 fun years hmem => YearRange.isLegal_iff.2 (hyears years hmem)
        · exact spansOf_eq_error_iff.2 ⟨_, _, _, _, hsplit, hbefore, hfault, rfl⟩

theorem exists_ofRule_iff : (∃ s, ofRule seen r = .ok s) ↔ ¬r.IsFaulty seen := by
  have hdates : (∃ spans, r.dates.mapM (·.spans seen) = .ok spans) ↔
      ¬∃ dates ∈ r.dates, ∃ fault, dates.spans seen = .error fault := by
    rw [exists_mapM_eq_ok_iff]
    simp only [exists_eq_error_iff, not_exists, not_and, not_forall, not_not]
  unfold Rule.IsFaulty
  rw [not_or, ← hdates]
  constructor
  · intro hgiven
    obtain ⟨s, h⟩ := hgiven
    obtain ⟨hyears, _, spans, hspans, _⟩ := ofRule_eq_ok_iff.1 h
    refine ⟨?_, spans, hspans⟩
    rintro ⟨years, hmem, hback⟩
    exact YearRange.isLegal_iff.1 (hyears years hmem) hback
  · rintro ⟨hyears, spans, hspans⟩
    refine ⟨⟨r, spans.flatten⟩, ofRule_eq_ok_iff.2 ⟨?_, rfl, spans, hspans, rfl⟩⟩
    exact fun years hmem => YearRange.isLegal_iff.2 fun hback => hyears ⟨years, hmem, hback⟩

end Selection

/-! ## The first rule at fault -/

/-- The error of the first rule of a list that is at fault. -/
def FirstFaultIn (rules : List Rule) (seen : YearMonth) (e : HoursError) : Prop :=
  ∃ before r after, rules = before ++ r :: after ∧ (∀ x ∈ before, ¬x.IsFaulty seen) ∧
    r.FirstFault seen e

section

variable {rules : List Rule} {seen : YearMonth} {e : HoursError}

theorem mapM_ofRule_eq_error_iff :
    rules.mapM (Selection.ofRule seen) = .error e ↔ FirstFaultIn rules seen e := by
  rw [mapM_eq_error_iff]
  simp only [Selection.exists_ofRule_iff, Selection.ofRule_eq_error_iff]
  exact Iff.rfl

theorem exists_mapM_ofRule_iff :
    (∃ selections, rules.mapM (Selection.ofRule seen) = .ok selections) ↔
      ∀ r ∈ rules, ¬r.IsFaulty seen := by
  rw [exists_mapM_eq_ok_iff]
  simp only [Selection.exists_ofRule_iff]

/-- A list has a first fault when one of its rules is at fault at all. -/
theorem exists_firstFaultIn_iff :
    (∃ e, FirstFaultIn rules seen e) ↔ ∃ r ∈ rules, r.IsFaulty seen := by
  simp only [← mapM_ofRule_eq_error_iff]
  rw [exists_eq_error_iff, exists_mapM_ofRule_iff]
  simp only [not_forall, not_not, exists_prop]

end

/-! ## Weeks and timetables -/

/-- There is a week from a date on where the calendar has the day before it and the eighth day. -/
theorem Week.exists_of_add? {first eve next : Date} (heve : first.add? (-1) = some eve)
    (hnext : first.add? 7 = some next) : ∃ w : Week, w.first = first := by
  rw [Date.add?_eq_some_iff] at heve hnext
  have hfirst := eve.first_le
  have hlast := next.le_last
  exact ⟨⟨first, by omega, by omega⟩, rfl⟩

theorem WeekPlan.make_eq_error_iff {rules : List Rule} {seen : YearMonth} {env : Setting} {w : Week}
    {e : HoursError} : make rules w.first seen env = .error e ↔ FirstFaultIn rules seen e := by
  unfold make
  rw [Week.startingOn?_eq_some_iff.2 rfl]
  exact bind_pure_eq_error_iff.trans mapM_ofRule_eq_error_iff

namespace Timetable

variable {rules : List Rule} {env : Setting} {d : Date} {w : Week} {e : HoursError}

/-- The list is looked at from the month of the date, then from the other month of the week. -/
theorem around_eq_error_iff (h : d.monday? = some w.first) :
    around rules env d = .error e ↔ FirstFaultIn rules d.yearMonth e ∨
      (∀ r ∈ rules, ¬r.IsFaulty d.yearMonth) ∧
        FirstFaultIn rules (otherMonth w d.yearMonth) e := by
  have hd := Week.yearMonth_of_monday? h
  have hother := otherMonth_cases w d.yearMonth
  unfold around
  rw [h]
  refine bind_eq_error_iff.trans (or_congr WeekPlan.make_eq_error_iff ?_)
  rw [← exists_mapM_ofRule_iff, ← WeekPlan.exists_make_eq_ok_iff env w, ← exists_and_right]
  refine exists_congr fun main => and_congr_right fun hmain => ?_
  have hweek : main.week = w := Week.ext (WeekPlan.make_eq_ok_iff.1 hmain).1
  rw [hweek]
  split
  · exact bind_pure_eq_error_iff.trans WeekPlan.make_eq_error_iff
  · -- from the other month the rules are what they were from the first, and there was no fault
    rename_i hsplit
    refine iff_of_false (fun hpure => by cases hpure) ?_
    rw [← mapM_ofRule_eq_error_iff, ← mapM_ofRule_eq_of_not_split hsplit hd hother]
    obtain ⟨selections, hsel⟩ := (WeekPlan.exists_make_eq_ok_iff env w).1 ⟨main, hmain⟩
    rw [hsel]
    exact fun hok => by cases hok

/-- There is no timetable for a date exactly when a rule is at fault from a month of its week. -/
theorem exists_around_eq_error_iff (h : d.monday? = some w.first) :
    (∃ e, around rules env d = .error e) ↔
      ∃ r ∈ rules, r.IsFaulty w.first.yearMonth ∨ r.IsFaulty w.last.yearMonth := by
  have hok : (∃ t, around rules env d = .ok t) ↔
      ∀ r ∈ rules, ¬(r.IsFaulty w.first.yearMonth ∨ r.IsFaulty w.last.yearMonth) := by
    simp only [exists_around_eq_ok_iff, exists_mapM_ofRule_iff, not_or]
    constructor
    · intro hgiven
      obtain ⟨w', hw', hlegal⟩ := hgiven
      obtain rfl : w' = w := Week.ext (Option.some.inj (hw'.symm.trans h))
      exact fun r hr => ⟨hlegal _ (Or.inl rfl) r hr, hlegal _ (Or.inr rfl) r hr⟩
    · intro hlegal
      refine ⟨w, h, ?_⟩
      rintro s (rfl | rfl) r hr
      · exact (hlegal r hr).1
      · exact (hlegal r hr).2
  rw [exists_eq_error_iff, hok]
  simp only [not_forall, not_not, exists_prop]

end Timetable

/-! ## Every question -/

namespace Hours

/-- A question about an instant comes to the error of the timetable of its date. -/
theorem eq_error_of_timetable {h : Hours} {i : Instant} {e : HoursError}
    (ht : h.timetable i.date = .error e) :
    h.standing i = .error e ∧ h.isOpen i = .error e ∧
      h.nextChange i = .error e ∧ h.previousChange i = .error e := by
  have hstanding : h.standing i = .error e := bind_pure_eq_error_iff.2 ht
  refine ⟨hstanding, bind_pure_eq_error_iff.2 hstanding, ?_, ?_⟩
  · exact bind_eq_error_iff.2 (Or.inl ht)
  · exact bind_eq_error_iff.2 (Or.inl ht)

/--
**Rules at fault are always reported, and the first of them is named.**

Where the calendar has room for a week, planning it fails exactly when some rule is at fault from
the month it is seen from, whichever days that rule would pick. The error is the one of the first
such rule, from its years before its dates, and names that rule. In such a week there is no
timetable for a date exactly when a rule is at fault from a month of the week, and then the error
is the one of the first rule at fault from one of its months. When there is no timetable for a
date, whatever the reason, the week as text and every question about an instant of the date come
to the same error.
-/
theorem first_fault_reported (rules : List Rule) (env : Setting) :
    (∀ (first eve next : Date) (seen : YearMonth),
      first.add? (-1) = some eve → first.add? 7 = some next →
        ((∃ e, WeekPlan.make rules first seen env = .error e) ↔ ∃ r ∈ rules, r.IsFaulty seen) ∧
        ∀ e, WeekPlan.make rules first seen env = .error e →
          ∃ before r after, rules = before ++ r :: after ∧ (∀ x ∈ before, ¬x.IsFaulty seen) ∧
            r.IsFaulty seen ∧ r.FirstFault seen e ∧ e.rule? = some r.id) ∧
    (∀ (d : Date) (w : Week), d.monday? = some w.first →
        ((∃ e, timetable ⟨rules, env⟩ d = .error e) ↔
          ∃ r ∈ rules, r.IsFaulty w.first.yearMonth ∨ r.IsFaulty w.last.yearMonth) ∧
        ∀ e, timetable ⟨rules, env⟩ d = .error e →
          ∃ s, (s = w.first.yearMonth ∨ s = w.last.yearMonth) ∧ FirstFaultIn rules s e) ∧
    ∀ (d : Date) (e : HoursError), timetable ⟨rules, env⟩ d = .error e →
      (∀ write, weekText ⟨rules, env⟩ write d = .error e) ∧
      ∀ i : Instant, i.date = d →
        standing ⟨rules, env⟩ i = .error e ∧ isOpen ⟨rules, env⟩ i = .error e ∧
          nextChange ⟨rules, env⟩ i = .error e ∧ previousChange ⟨rules, env⟩ i = .error e := by
  refine ⟨?_, ?_, ?_⟩
  · intro first eve next seen heve hnext
    obtain ⟨w, rfl⟩ := Week.exists_of_add? heve hnext
    simp only [WeekPlan.make_eq_error_iff]
    refine ⟨exists_firstFaultIn_iff, ?_⟩
    intro e he
    obtain ⟨before, r, after, hsplit, hbefore, hfault⟩ := he
    exact ⟨before, r, after, hsplit, hbefore, hfault.isFaulty, hfault, hfault.rule?_eq⟩
  · intro d w hmonday
    refine ⟨Timetable.exists_around_eq_error_iff hmonday, ?_⟩
    intro e he
    rcases (Timetable.around_eq_error_iff hmonday).1 he with hfault | ⟨_, hfault⟩
    · exact ⟨d.yearMonth, Week.yearMonth_of_monday? hmonday, hfault⟩
    · exact ⟨_, Timetable.otherMonth_cases w d.yearMonth, hfault⟩
  · intro d e he
    refine ⟨fun write => bind_pure_eq_error_iff.2 he, ?_⟩
    rintro i rfl
    exact eq_error_of_timetable he

/-- Open in July and August. -/
def summer : Rule := { id := ⟨"summer"⟩, dates := [.between (.ofMonth 7) (.ofMonth 8)] }

/-- Open in years that end before they start, and in December only. -/
def past : Rule :=
  { id := ⟨"past"⟩, years := [.between 2030 2020], dates := [.single (.ofMonth 12)] }

/-- Open from a day on, of which the year is left open. -/
def someday : Rule := { id := ⟨"someday"⟩, dates := [.onward (.ofMonthDay 9 1)] }

/--
Of three rules the second and the third are at fault. Monday, 12 July 2021 is no day of the second
one, and yet its week, and whether the place is open at midnight, is an error that names it.
-/
theorem first_fault_reported_past :
    let rules := [summer, past, someday]
    let monday : Date := ⟨738348, by decide, by decide⟩
    past.IsFaulty ⟨2021, 7⟩ ∧ someday.IsFaulty ⟨2021, 7⟩ ∧
      ∃ e, WeekPlan.make rules monday ⟨2021, 7⟩ {} = .error e ∧ e.rule? = some ⟨"past"⟩ ∧
        isOpen ⟨rules, {}⟩ (.midnight monday) = .error e := by
  intro rules monday
  have hsummer : ¬summer.IsFaulty ⟨2021, 7⟩ := Selection.exists_ofRule_iff.1 ⟨_, rfl⟩
  have hpast : past.IsFaulty ⟨2021, 7⟩ :=
    Or.inl ⟨.between 2030 2020, List.mem_cons_self, 2020, rfl, by decide⟩
  have hsomeday : someday.IsFaulty ⟨2021, 7⟩ :=
    Or.inr ⟨.onward (.ofMonthDay 9 1), List.mem_cons_self, .openRangeWithoutYear, rfl⟩
  obtain ⟨hmake, _, hask⟩ := first_fault_reported rules {}
  obtain ⟨hfails, hfirst⟩ := hmake monday ⟨738347, by decide, by decide⟩
    ⟨738355, by decide, by decide⟩ ⟨2021, 7⟩ rfl rfl
  obtain ⟨e, he⟩ := hfails.2 ⟨past, by decide, hpast⟩
  obtain ⟨before, r, after, hsplit, hbefore, hfaulty, _, hrule⟩ := hfirst e he
  refine ⟨hpast, hsomeday, e, he, ?_, ?_⟩
  · change [summer, past, someday] = _ at hsplit
    cases before with
    | nil =>
        cases hsplit
        exact absurd hfaulty hsummer
    | cons b before =>
        cases before with
        | nil =>
            cases hsplit
            exact hrule
        | cons b' before =>
            obtain ⟨rfl, hrest⟩ := List.cons.inj hsplit
            obtain ⟨rfl, _⟩ := List.cons.inj hrest
            exact absurd hpast (hbefore past (List.mem_cons_of_mem _ List.mem_cons_self))
  · let w : Week := ⟨monday, by decide, by decide⟩
    have hmonth : monday.yearMonth = ⟨2021, 7⟩ := by decide +kernel
    have hfault : FirstFaultIn rules monday.yearMonth e := by
      rw [hmonth]
      exact (WeekPlan.make_eq_error_iff (w := w)).1 he
    have hdate : timetable ⟨rules, {}⟩ monday = .error e :=
      (Timetable.around_eq_error_iff (w := w) rfl).2 (Or.inl hfault)
    exact ((hask monday e hdate).2 (.midnight monday) rfl).2.1

end Hours

end OpeningHours
