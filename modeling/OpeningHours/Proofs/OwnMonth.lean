import OpeningHours.Proofs.Calendar
import OpeningHours.Proofs.WeekPlan
import OpeningHours.Timetable.Basic

/-!
# Every day is read in its own month

A timetable plans its week as seen from one month or from two. Whichever date it was asked
for, the day it has for a date is the same: the day as seen from the month of that very date,
with what the day before it hands on, seen from there too. It is so because a week lies in
two months at most, and because rules without date ranges are the same from every month.

Whether there is a timetable does not depend on the date either: either all dates of a week
have one, or none has.
-/

namespace OpeningHours

/-! ## Rules seen from a month -/

namespace Selection

variable {rules : List Rule}

/-- A rule without date ranges is the same seen from every month. -/
theorem ofRule_eq_of_no_dates {r : Rule} (h : r.hasDates = false) (s s' : YearMonth) :
    ofRule s r = ofRule s' r := by
  have hdates : r.dates = [] := by simpa [Rule.hasDates] using h
  have hspans : spansOf s r = spansOf s' r := by
    unfold spansOf
    rw [hdates]
    rfl
  unfold ofRule
  rw [hspans]

theorem mapM_ofRule_eq_of_no_dates (h : rules.any Rule.hasDates = false) (s s' : YearMonth) :
    rules.mapM (ofRule s) = rules.mapM (ofRule s') := by
  induction rules with
  | nil => rfl
  | cons r rest ih =>
      rw [List.any_cons, Bool.or_eq_false_iff] at h
      rw [List.mapM_cons, List.mapM_cons, ofRule_eq_of_no_dates h.1 s s', ih h.2]

end Selection

/-! ## The week of a date -/

namespace Date

/-- The number of the Monday of the week of a date, inside the calendar or not. -/
def mondayNumber (d : Date) : Int := d.number - (d.number + 5) % 7

theorem monday?_eq_some_iff {d monday : Date} :
    d.monday? = some monday ↔ monday.number = d.mondayNumber := by
  unfold monday? mondayNumber
  rw [add?_eq_some_iff, weekday_index]
  exact Iff.rfl

theorem mondayNumber_of_weeks {d e : Date} {k : Int} (h : e.number = d.number + 7 * k) :
    e.mondayNumber = d.mondayNumber + 7 * k := by
  unfold mondayNumber
  omega

/-- A later date lies in the same week or in one of the weeks after it. -/
theorem exists_mondayNumber_eq {d e : Date} (h : d ≤ e) :
    ∃ k : Nat, e.mondayNumber = d.mondayNumber + 7 * k := by
  rw [le_iff] at h
  refine ⟨((e.mondayNumber - d.mondayNumber) / 7).toNat, ?_⟩
  unfold mondayNumber
  omega

end Date

namespace Week

variable {w : Week} {d : Date}

theorem date_weekday (h : d.monday? = some w.first) : w.date d.weekday.index.castSucc = d := by
  have hindex := d.weekday_index
  rw [Date.monday?_eq_some_iff, Date.mondayNumber] at h
  refine Date.ext ?_
  simp only [date, Fin.val_castSucc]
  omega

theorem monday?_date (h : d.monday? = some w.first) (i : Fin 7) :
    (w.date i.castSucc).monday? = some w.first := by
  have hi := i.isLt
  rw [Date.monday?_eq_some_iff, Date.mondayNumber] at h ⊢
  simp only [date, Fin.val_castSucc]
  omega

theorem index_weekday_date (h : d.monday? = some w.first) (i : Fin 7) :
    (w.date i.castSucc).weekday.index = i := by
  have hi := i.isLt
  have hindex := (w.date i.castSucc).weekday_index
  rw [Date.monday?_eq_some_iff, Date.mondayNumber] at h
  simp only [date, Fin.val_castSucc] at hindex
  refine Fin.ext ?_
  simp only [date, Fin.val_castSucc]
  omega

/-- In a week from Monday on, the weekdays stand at their places. -/
theorem weekday_date (h : d.monday? = some w.first) (v : Weekday) :
    (w.date v.index.castSucc).weekday = v := by
  rw [← Weekday.ofIndex_index (w.date v.index.castSucc).weekday, index_weekday_date h,
    Weekday.ofIndex_index]

/-- A week lies in the month of its first day and in that of its last. -/
theorem yearMonth_date (w : Week) (i : Fin 7) :
    (w.date i.castSucc).yearMonth = w.first.yearMonth ∨
      (w.date i.castSucc).yearMonth = w.last.yearMonth := by
  have hcontains := DaySpan.contains_iff.1 (w.span_contains_date i)
  refine Date.yearMonth_of_run hcontains.1 hcontains.2 ?_
  show w.first.number + 6 < w.first.number + 28
  omega

theorem yearMonth_of_monday? (h : d.monday? = some w.first) :
    d.yearMonth = w.first.yearMonth ∨ d.yearMonth = w.last.yearMonth := by
  have := w.yearMonth_date d.weekday.index
  rwa [date_weekday h] at this

end Week

/-! ## A day seen from its own month -/

namespace DayPlan

/-- The plan of a date as seen from its own month, with what the day before hands on. -/
def InOwnMonth (rules : List Rule) (env : Setting) (d : Date) (day : DayPlan) : Prop :=
  ∃ selections before, rules.mapM (Selection.ofRule d.yearMonth) = .ok selections ∧
    before.number + 1 = d.number ∧ day = .following env selections before d

theorem InOwnMonth.unique {rules : List Rule} {env : Setting} {d : Date} {a b : DayPlan}
    (ha : a.InOwnMonth rules env d) (hb : b.InOwnMonth rules env d) : a = b := by
  obtain ⟨selections, before, hsel, hbefore, rfl⟩ := ha
  obtain ⟨selections', before', hsel', hbefore', rfl⟩ := hb
  rw [hsel] at hsel'
  cases hsel'
  rw [Date.ext (show before.number = before'.number by omega)]

theorem InOwnMonth.date_eq {rules : List Rule} {env : Setting} {d : Date} {day : DayPlan}
    (h : day.InOwnMonth rules env d) : day.date = d := by
  obtain ⟨_, _, _, _, rfl⟩ := h
  exact date_following

theorem InOwnMonth.tidy {rules : List Rule} {env : Setting} {d : Date} {day : DayPlan}
    (h : day.InOwnMonth rules env d) : day.Tidy := by
  obtain ⟨_, _, _, _, rfl⟩ := h
  exact tidy_following

end DayPlan

/-! ## The plan a day is read in -/

namespace WeekPlan

variable {rules : List Rule} {first d : Date} {seen : YearMonth} {env : Setting} {p : WeekPlan}

theorem date_day (h : make rules first seen env = .ok p) (w : Weekday) :
    (p.day w).date = p.week.date w.index.castSucc := by
  obtain ⟨_, _, hday⟩ := day_eq_following h
  rw [hday w, DayPlan.date_following]

/-- Planning a week succeeds when there is room for it and the rules make sense from the month. -/
theorem exists_make_eq_ok_iff (env : Setting) (w : Week) :
    (∃ p, make rules w.first seen env = .ok p) ↔
      ∃ selections, rules.mapM (Selection.ofRule seen) = .ok selections := by
  refine ⟨?_, ?_⟩
  · intro hgiven
    obtain ⟨p, hp⟩ := hgiven
    obtain ⟨_, _, _, selections, hsel, _⟩ := make_eq_ok_iff.1 hp
    exact ⟨selections, hsel⟩
  · intro hgiven
    obtain ⟨selections, hsel⟩ := hgiven
    exact ⟨⟨seen, w, daysOf env w selections, rules, length_daysOf env w selections⟩,
      make_eq_ok_iff.2 ⟨rfl, rfl, rfl, selections, hsel, rfl⟩⟩

/-- A day in the plan of a week that is seen from the month of that day. -/
theorem day_inOwnMonth (h : make rules first seen env = .ok p)
    (hd : d.monday? = some p.week.first)
    (hseen : rules.mapM (Selection.ofRule seen) = rules.mapM (Selection.ofRule d.yearMonth)) :
    (p.day d.weekday).InOwnMonth rules env d := by
  obtain ⟨selections, hsel, hday⟩ := day_eq_following h
  refine ⟨selections, p.week.dayBefore d.weekday.index, hseen ▸ hsel, ?_, ?_⟩
  · rw [Week.dayBefore_eq_iff.1 rfl, Week.date_weekday hd]
  · rw [hday, Week.date_weekday hd]

end WeekPlan

/-! ## The days of a timetable -/

namespace Timetable

variable {rules : List Rule} {env : Setting} {d e : Date} {t t' : Timetable}

/-- What a timetable is made of: one plan, or two where a week with date ranges is split. -/
theorem around_eq_ok_iff :
    around rules env d = .ok t ↔
      d.monday? = some t.week.first ∧ WeekPlan.make rules t.week.first d.yearMonth env = .ok t.main ∧
        if isSplit t.week && rules.any Rule.hasDates then
          ∃ other, WeekPlan.make rules t.week.first (otherMonth t.week d.yearMonth) env = .ok other ∧
            t.other? = some other
        else t.other? = none := by
  unfold around week
  refine ⟨?_, ?_⟩
  · intro h
    split at h
    · cases h
    · rename_i monday hmonday
      obtain ⟨main, hmain, h⟩ := bind_eq_ok_iff.1 h
      have hfirst : main.week.first = monday := (WeekPlan.make_eq_ok_iff.1 hmain).1
      split at h
      · rename_i hsplit
        obtain ⟨other, hother, ht⟩ := bind_eq_ok_iff.1 h
        cases ht
        dsimp only
        rw [hfirst, if_pos hsplit]
        exact ⟨hmonday, hmain, other, hother, rfl⟩
      · rename_i hsplit
        cases h
        dsimp only
        rw [hfirst, if_neg hsplit]
        exact ⟨hmonday, hmain, rfl⟩
  · intro hgiven
    obtain ⟨hmonday, hmain, hother⟩ := hgiven
    rw [hmonday]
    refine bind_eq_ok_iff.2 ⟨t.main, hmain, ?_⟩
    split at hother
    · rename_i hsplit
      obtain ⟨other, hmake, hother⟩ := hother
      rw [if_pos hsplit]
      refine bind_eq_ok_iff.2 ⟨other, hmake, ?_⟩
      rw [← hother]
      rfl
    · rename_i hsplit
      rw [if_neg hsplit, ← hother]
      rfl

/-- In a week that was not planned twice the rules are the same from both its months. -/
theorem mapM_ofRule_eq_of_not_split {w : Week}
    (h : ¬(isSplit w && rules.any Rule.hasDates) = true) {s s' : YearMonth}
    (hs : s = w.first.yearMonth ∨ s = w.last.yearMonth)
    (hs' : s' = w.first.yearMonth ∨ s' = w.last.yearMonth) :
    rules.mapM (Selection.ofRule s) = rules.mapM (Selection.ofRule s') := by
  by_cases hdates : rules.any Rule.hasDates = true
  · have hsame : w.first.yearMonth = w.last.yearMonth := by
      simpa [isSplit, hdates] using h
    rw [hsame, or_self] at hs hs'
    rw [hs, hs']
  · exact Selection.mapM_ofRule_eq_of_no_dates (Bool.not_eq_true _ ▸ hdates) s s'

theorem otherMonth_cases (w : Week) (s : YearMonth) :
    otherMonth w s = w.first.yearMonth ∨ otherMonth w s = w.last.yearMonth := by
  unfold otherMonth
  split
  · exact Or.inr rfl
  · exact Or.inl rfl

theorem otherMonth_eq {w : Week} {s s' : YearMonth} (h : s ≠ s')
    (hs : s = w.first.yearMonth ∨ s = w.last.yearMonth)
    (hs' : s' = w.first.yearMonth ∨ s' = w.last.yearMonth) : otherMonth w s = s' := by
  unfold otherMonth
  rcases hs with rfl | rfl <;> rcases hs' with rfl | rfl
  · exact absurd rfl h
  · exact if_pos rfl
  · exact if_neg h
  · exact absurd rfl h

/-- Every day of a timetable is the day as seen from its own month. -/
theorem day_inOwnMonth (h : around rules env d = .ok t) (he : e.monday? = some t.week.first) :
    (t.day e.weekday).InOwnMonth rules env e := by
  obtain ⟨hmonday, hmain, hother⟩ := around_eq_ok_iff.1 h
  have hd := Week.yearMonth_of_monday? hmonday
  have he' := Week.yearMonth_of_monday? he
  unfold day
  split at hother
  · obtain ⟨other, hmake, hsome⟩ := hother
    have hweek : other.week = t.week :=
      Week.ext (WeekPlan.make_eq_ok_iff.1 hmake).1
    rw [hsome]
    dsimp only
    have hdate : (t.main.day e.weekday).date = e := by
      rw [WeekPlan.date_day hmain]
      exact Week.date_weekday he
    have hseen : t.main.seen = d.yearMonth := (WeekPlan.make_eq_ok_iff.1 hmain).2.1
    unfold WeekPlan.isInMonth
    rw [hdate, hseen]
    -- the day is read in the plan that is seen from its own month
    by_cases hmonth : e.yearMonth = d.yearMonth
    · rw [if_pos (beq_iff_eq.2 hmonth)]
      exact WeekPlan.day_inOwnMonth hmain he (by rw [hmonth])
    · rw [if_neg (mt beq_iff_eq.1 hmonth)]
      refine WeekPlan.day_inOwnMonth hmake (hweek ▸ he) ?_
      rw [otherMonth_eq (Ne.symm hmonth) hd he']
  · rename_i hsplit
    rw [hother]
    exact WeekPlan.day_inOwnMonth hmain he (mapM_ofRule_eq_of_not_split hsplit hd he')

/-- There is a timetable for a date when the rules make sense from the months of all its week. -/
theorem exists_around_eq_ok_iff :
    (∃ t, around rules env d = .ok t) ↔ ∃ w : Week, d.monday? = some w.first ∧
      ∀ s, s = w.first.yearMonth ∨ s = w.last.yearMonth →
        ∃ selections, rules.mapM (Selection.ofRule s) = .ok selections := by
  refine ⟨?_, ?_⟩
  · intro hgiven
    obtain ⟨t, h⟩ := hgiven
    obtain ⟨hmonday, hmain, hother⟩ := around_eq_ok_iff.1 h
    refine ⟨t.week, hmonday, fun s hs => ?_⟩
    -- each of the two months is that of `d`, or the other one, or no different from it
    have hd := Week.yearMonth_of_monday? hmonday
    split at hother
    · obtain ⟨other, hmake, _⟩ := hother
      by_cases hmonth : d.yearMonth = s
      · rw [← hmonth]
        exact (WeekPlan.exists_make_eq_ok_iff env t.week).1 ⟨_, hmain⟩
      · rw [← otherMonth_eq hmonth hd hs]
        exact (WeekPlan.exists_make_eq_ok_iff env t.week).1 ⟨other, hmake⟩
    · rename_i hsplit
      rw [mapM_ofRule_eq_of_not_split hsplit hs hd]
      exact (WeekPlan.exists_make_eq_ok_iff env t.week).1 ⟨_, hmain⟩
  · intro hgiven
    obtain ⟨w, hmonday, hsel⟩ := hgiven
    obtain ⟨main, hmain⟩ := (WeekPlan.exists_make_eq_ok_iff env w).2
      (hsel d.yearMonth (Week.yearMonth_of_monday? hmonday))
    have hweek : main.week = w := Week.ext (WeekPlan.make_eq_ok_iff.1 hmain).1
    by_cases hsplit : (isSplit w && rules.any Rule.hasDates) = true
    · obtain ⟨other, hother⟩ := (WeekPlan.exists_make_eq_ok_iff env w).2
        (hsel _ (otherMonth_cases w d.yearMonth))
      refine ⟨⟨main, some other⟩, around_eq_ok_iff.2 ?_⟩
      simp only [week, hweek, if_pos hsplit]
      exact ⟨hmonday, hmain, other, hother, rfl⟩
    · refine ⟨⟨main, none⟩, around_eq_ok_iff.2 ?_⟩
      simp only [week, hweek, if_neg hsplit]
      exact ⟨hmonday, hmain, trivial⟩

theorem exists_around_of_monday? (h : around rules env d = .ok t)
    (he : e.monday? = some t.week.first) :
    ∃ t', around rules env e = .ok t' ∧ t'.week = t.week := by
  obtain ⟨w, hmonday, hsel⟩ := exists_around_eq_ok_iff.1 ⟨t, h⟩
  have hw : w.first = t.week.first :=
    Option.some.inj (hmonday.symm.trans (around_eq_ok_iff.1 h).1)
  obtain ⟨t', ht'⟩ := exists_around_eq_ok_iff.2 ⟨w, he.trans (congrArg some hw.symm), hsel⟩
  exact ⟨t', ht', Week.ext (Option.some.inj ((around_eq_ok_iff.1 ht').1.symm.trans he))⟩

theorem day_eq (h : around rules env d = .ok t) (h' : around rules env e = .ok t')
    (hweek : t'.week = t.week) (w : Weekday) : t.day w = t'.day w := by
  have hmonday := (around_eq_ok_iff.1 h).1
  have hin := Week.monday?_date hmonday w.index
  rw [← Week.weekday_date hmonday w]
  exact (day_inOwnMonth h hin).unique (day_inOwnMonth h' (by rw [hweek, hin]))

/-- The day of a date, as the plan of its week has it that is seen from the month of the date. -/
theorem exists_make_day_eq (h : around rules env d = .ok t) (he : e.monday? = some t.week.first) :
    ∃ p, WeekPlan.make rules t.week.first e.yearMonth env = .ok p ∧
      t.day e.weekday = p.day e.weekday := by
  obtain ⟨selections, _, hsel, _⟩ := day_inOwnMonth h he
  obtain ⟨p, hp⟩ := (WeekPlan.exists_make_eq_ok_iff env t.week).2 ⟨selections, hsel⟩
  have hfirst : p.week.first = t.week.first := (WeekPlan.make_eq_ok_iff.1 hp).1
  exact ⟨p, hp, (day_inOwnMonth h he).unique (WeekPlan.day_inOwnMonth hp (hfirst ▸ he) rfl)⟩

/-- All dates of a week have a timetable if one of them has. -/
theorem exists_around_of_mondayNumber_eq (h : around rules env d = .ok t)
    (hsame : e.mondayNumber = d.mondayNumber) :
    ∃ t', around rules env e = .ok t' ∧ t'.week = t.week := by
  have hmonday := Date.monday?_eq_some_iff.1 (around_eq_ok_iff.1 h).1
  exact exists_around_of_monday? h (Date.monday?_eq_some_iff.2 (hmonday.trans hsame.symm))

/--
**Every day is read in its own month, whatever date of the week is asked for.**

Each weekday of a timetable is a date of the week, and its day is the one in the plan of the week
that is seen from the month of this date. So it does not matter for which date of a week the
timetable was asked: there is one for each date or for none, and they have the same days.
-/
theorem day_eq_make_day (hsame : e.mondayNumber = d.mondayNumber) :
    ((∃ t, around rules env d = .ok t) ↔ ∃ t', around rules env e = .ok t') ∧
      ∀ t, around rules env d = .ok t →
        (∀ w, (t.day w).date.weekday = w ∧ (t.day w).date.mondayNumber = d.mondayNumber ∧
          ∃ monday p, d.monday? = some monday ∧
            WeekPlan.make rules monday (t.day w).date.yearMonth env = .ok p ∧
              t.day w = p.day w) ∧
        ∀ t', around rules env e = .ok t' → ∀ w, t.day w = t'.day w := by
  refine ⟨⟨?_, ?_⟩, ?_⟩
  · intro hgiven
    obtain ⟨t, h⟩ := hgiven
    obtain ⟨t', h', _⟩ := exists_around_of_mondayNumber_eq h hsame
    exact ⟨t', h'⟩
  · intro hgiven
    obtain ⟨t', h'⟩ := hgiven
    obtain ⟨t, h, _⟩ := exists_around_of_mondayNumber_eq h' hsame.symm
    exact ⟨t, h⟩
  · intro t h
    have hmonday := (around_eq_ok_iff.1 h).1
    refine ⟨?_, ?_⟩
    · intro w
      have hin := Week.monday?_date hmonday w.index
      obtain ⟨p, hp, hday⟩ := exists_make_day_eq h hin
      have hdate := (day_inOwnMonth h hin).date_eq
      have hweekday := Week.weekday_date hmonday w
      rw [hweekday] at hday hdate
      rw [hdate]
      refine ⟨hweekday, ?_, t.week.first, p, hmonday, hp, hday⟩
      exact (Date.monday?_eq_some_iff.1 hin).symm.trans (Date.monday?_eq_some_iff.1 hmonday)
    · intro t' h'
      obtain ⟨t'', h'', hweek⟩ := exists_around_of_mondayNumber_eq h hsame
      cases h'.symm.trans h''
      exact day_eq h h' hweek

/-- Open on the first and the second of every month. -/
def monthStart : Rule :=
  { id := ⟨"month"⟩, dates := [.between { day? := some 1 } { day? := some 2 }] }

/-- Wednesday, 30 June 2021. -/
def lastOfJune : Date := ⟨738336, by decide, by decide⟩

/-- Thursday, 1 July 2021. -/
def firstOfJuly : Date := ⟨738337, by decide, by decide⟩

/-- In the week of both dates Wednesday is read in June and Thursday in July, for either date. -/
theorem day_eq_make_day_monthStart :
    ∃ t t', around [monthStart] {} lastOfJune = .ok t ∧
      around [monthStart] {} firstOfJuly = .ok t' ∧
      firstOfJuly.mondayNumber = lastOfJune.mondayNumber ∧ (∀ w, t.day w = t'.day w) ∧
      (t.day .thu).date = firstOfJuly ∧ (t.day .wed).intervals = [] ∧
      (t.day .thu).intervals.map Interval.span = [(0, 1440)] ∧
      ∃ monday p, lastOfJune.monday? = some monday ∧
        WeekPlan.make [monthStart] monday ⟨2021, 7⟩ {} = .ok p ∧ t.day .thu = p.day .thu := by
  obtain ⟨t, ht⟩ : ∃ t, around [monthStart] {} lastOfJune = .ok t := ⟨_, rfl⟩
  have hsame : firstOfJuly.mondayNumber = lastOfJune.mondayNumber := by decide
  obtain ⟨hiff, hdays⟩ := @day_eq_make_day [monthStart] {} lastOfJune firstOfJuly hsame
  obtain ⟨t', ht'⟩ := hiff.1 ⟨t, ht⟩
  obtain ⟨hown, hother⟩ := hdays t ht
  obtain ⟨_, _, monday, p, hmonday, hp, hday⟩ := hown .thu
  cases ht
  refine ⟨_, t', rfl, ht', hsame, hother t' ht', ?_, ?_, ?_, monday, p, hmonday, hp, hday⟩
  · decide +kernel
  · decide +kernel
  · decide +kernel

end Timetable

end OpeningHours
