import OpeningHours.Proofs.WeekPlan

/-!
# How far fallback rules stay behind

A fallback rule fills what the other rules leave open. Call those others firm, and firmly said
what comes from one of them. On one day, its minutes past 24:00 included, a fallback rule changes
nothing of what is firmly said, wherever it stands in the list: what the firm rules alone say of
a minute is what all rules say of it, unless it is a fallback rule that says so (`said_firm`).
This is a law of a single revision and, by induction on the rules, of every run of them.

Between two days the law ends. What a day hands on is laid over the next day whatever rule it
comes from, so a fallback rule that runs past midnight goes before the firm rules of the day
after. There, and nowhere else, a fallback interval stands where the day by itself has a firm one.
-/

namespace OpeningHours

/-- Whether a label comes from a rule that is no fallback. -/
def Label.isFirm (label : Label) : Bool := !label.fallback

theorem Label.isFirm_eq_false {label : Label} : label.isFirm = false ↔ label.fallback = true := by
  unfold isFirm
  rw [Bool.not_eq_false']

/-! ## One rule -/

namespace Rule

variable {r : Rule}

theorem isFirm_label (r : Rule) : r.label.isFirm = !r.isFallback := rfl

/-- A fallback rule changes nothing of what is firmly said. -/
theorem filter_revise_of_isFallback (h : r.isFallback = true) (covered : Bool)
    (said : Option Label) :
    (r.revise covered said).filter Label.isFirm = said.filter Label.isFirm := by
  have hkind : r.kind = .fallback := beq_iff_eq.1 h
  unfold revise
  rw [hkind]
  dsimp only
  split
  · -- it speaks where nothing has been said, and what it says is not firm
    rename_i hspeaks
    obtain ⟨_, hnone⟩ := Bool.and_eq_true_iff.1 hspeaks
    rw [Option.isNone_iff_eq_none.1 hnone, Option.filter_some, isFirm_label, h]
    rfl
  · rfl

/-- A firm rule does to what is firmly said what it does to all that is said. -/
theorem filter_revise_of_firm (h : r.isFallback = false) (covered : Bool) (said : Option Label) :
    (r.revise covered said).filter Label.isFirm = r.revise covered (said.filter Label.isFirm) := by
  have hlabel : (some r.label).filter Label.isFirm = some r.label := by
    rw [Option.filter_some, isFirm_label, h]
    rfl
  unfold revise
  cases hkind : r.kind with
  | override =>
      dsimp only
      split
      · exact hlabel
      · rfl
  | additional =>
      dsimp only
      split
      · exact hlabel
      · rfl
  | fallback =>
      unfold isFallback at h
      rw [hkind] at h
      exact absurd h (by decide)

end Rule

/-! ## The rules of a day -/

namespace Selection

variable {env : Setting} {d : Date} {minute : Nat}

/-- The rules that are no fallback. -/
def firm (selections : List Selection) : List Selection :=
  selections.filter fun s => !s.rule.isFallback

theorem filter_reviseAt_of_isFallback {s : Selection} (h : s.rule.isFallback = true)
    (said : Option Label) :
    (reviseAt env d minute said s).filter Label.isFirm = said.filter Label.isFirm := by
  unfold reviseAt
  split
  · exact Rule.filter_revise_of_isFallback h _ said
  · rfl

theorem filter_reviseAt_of_firm {s : Selection} (h : s.rule.isFallback = false)
    (said : Option Label) :
    (reviseAt env d minute said s).filter Label.isFirm =
      reviseAt env d minute (said.filter Label.isFirm) s := by
  unfold reviseAt
  split
  · exact Rule.filter_revise_of_firm h _ said
  · rfl

theorem foldl_reviseAt_firm (selections : List Selection) (said : Option Label) :
    (firm selections).foldl (reviseAt env d minute) (said.filter Label.isFirm) =
      (selections.foldl (reviseAt env d minute) said).filter Label.isFirm := by
  induction selections generalizing said with
  | nil => rfl
  | cons s rest ih =>
      rw [List.foldl_cons, ← ih]
      unfold firm
      cases h : s.rule.isFallback with
      | true => rw [List.filter_cons_of_neg (by simp [h]), filter_reviseAt_of_isFallback h]
      | false =>
          rw [List.filter_cons_of_pos (by simp [h]), List.foldl_cons, filter_reviseAt_of_firm h]

/-- What the firm rules say of a minute is what all rules say of it, unless a fallback does. -/
theorem said_firm (env : Setting) (d : Date) (selections : List Selection) (minute : Nat) :
    said env d (firm selections) minute = (said env d selections minute).filter Label.isFirm :=
  foldl_reviseAt_firm selections none

end Selection

/-! ## Two days -/

namespace DayPlan

open Selection

variable {env : Setting} {before d : Date} {selections : List Selection} {minute : Nat}

theorem inForce?_eq_some_iff {day : DayPlan} (h : day.Tidy) {iv : Interval} :
    day.inForce? minute = some iv ↔ iv ∈ day.intervals ∧ iv.contains minute = true :=
  Timeline.covering?_eq_some_iff h.intervals.pairwise_apart

/-- Where a fallback interval is handed on, no firm rule of the day before speaks of the minute. -/
theorem said_firm_eq_none_of_mem_outgoing {o : Interval}
    (ho : o ∈ (ofSelections env before selections).outgoing) (hm : o.contains minute = true)
    (hfallback : o.label.fallback = true) :
    said env before (firm selections) (minute + minutesPerDay) = none := by
  have hminute := Interval.lt_minutesPerDay_of_contains hm
  have hlabel : (ofSelections env before selections).outgoing.labelAt minute = some o.label :=
    (Timeline.labelAt_eq_some_iff tidy_ofSelections.outgoing.pairwise_apart).2 ⟨o, ho, hm, rfl⟩
  rw [labelAt_outgoing_ofSelections hminute] at hlabel
  rw [said_firm, hlabel, Option.filter_some, Label.isFirm_eq_false.2 hfallback]
  rfl

/-- An interval of the day by itself stays in force unless the day before hands one on. -/
theorem exists_inForce?_following (before : Date) {own : Interval}
    (hown : (ofSelections env d selections).inForce? minute = some own) :
    ∃ iv, (following env selections before d).inForce? minute = some iv ∧
      ((∃ o ∈ (ofSelections env before selections).outgoing,
          o.contains minute = true ∧ iv.label = o.label) ∨
        (∀ o ∈ (ofSelections env before selections).outgoing, o.contains minute = false) ∧
          iv.label = own.label) := by
  obtain ⟨_, hm⟩ := (inForce?_eq_some_iff tidy_ofSelections).1 hown
  have hminute := Interval.lt_minutesPerDay_of_contains hm
  have hsaid : said env d selections minute = some own.label := by
    rw [← labelAt_intervals_ofSelections hminute]
    exact congrArg (Option.map Interval.label) hown
  have hlabel : (following env selections before d).intervals.labelAt minute = _ :=
    labelAt_intervals_following hminute
  rw [← labelAt_outgoing_ofSelections hminute, hsaid] at hlabel
  cases hout : (ofSelections env before selections).outgoing.labelAt minute with
  | some label =>
      rw [hout, Option.some_or] at hlabel
      obtain ⟨iv, hiv, rfl⟩ := Option.map_eq_some_iff.1 hlabel
      obtain ⟨o, ho, hom, hol⟩ :=
        (Timeline.labelAt_eq_some_iff tidy_ofSelections.outgoing.pairwise_apart).1 hout
      exact ⟨iv, hiv, Or.inl ⟨o, ho, hom, hol.symm⟩⟩
  | none =>
      rw [hout, Option.none_or] at hlabel
      obtain ⟨iv, hiv, hivl⟩ := Option.map_eq_some_iff.1 hlabel
      exact ⟨iv, hiv, Or.inr ⟨Timeline.labelAt_eq_none_iff.1 hout, hivl⟩⟩

/-- Over a firm interval of the day by itself a fallback stands exactly where one is handed on. -/
theorem fallback_inForce?_following {own : Interval}
    (hown : (ofSelections env d selections).inForce? minute = some own)
    (hfirm : own.label.fallback = false) :
    ∃ iv, (following env selections before d).inForce? minute = some iv ∧
      (iv.label.fallback = true ↔ ∃ o ∈ (ofSelections env before selections).outgoing,
        o.contains minute = true ∧ o.label.fallback = true) := by
  have hapart : (ofSelections env before selections).outgoing.Pairwise Timeline.Apart :=
    tidy_ofSelections.outgoing.pairwise_apart
  obtain ⟨iv, hiv, hcase⟩ := exists_inForce?_following before hown
  refine ⟨iv, hiv, ?_, ?_⟩
  · intro hfallback
    rcases hcase with ⟨o, ho, hm, hl⟩ | ⟨_, hl⟩
    · exact ⟨o, ho, hm, hl ▸ hfallback⟩
    · rw [hl, hfirm] at hfallback
      cases hfallback
  · intro hgiven
    obtain ⟨o, ho, hm, hfallback⟩ := hgiven
    rcases hcase with ⟨o', ho', hm', hl⟩ | ⟨hnone, _⟩
    · -- what is handed on has the minute once
      rw [hl, Timeline.eq_of_contains hapart ho' ho hm' hm]
      exact hfallback
    · rw [hnone o ho] at hm
      cases hm

end DayPlan

namespace WeekPlan

variable {rules : List Rule} {first : Date} {seen : YearMonth} {env : Setting} {p : WeekPlan}

/--
**Where a fallback goes before a firm rule.**

Where the rules of a day by themselves put a firm interval on a minute, the planned day has a
fallback interval there exactly when the day before hands one on. And such a one has itself only
filled a gap: of the minute, past 24:00 of the day before, no firm rule of that day speaks.
-/
theorem fallback_inForce?_iff (h : make rules first seen env = .ok p) :
    ∃ selections, rules.mapM (Selection.ofRule seen) = .ok selections ∧
      ∀ w, ∃ before : Date, before.number + 1 = (p.day w).date.number ∧
        ∀ minute own,
          (DayPlan.ofSelections env (p.day w).date selections).inForce? minute = some own →
          own.label.fallback = false →
            ∃ iv, (p.day w).inForce? minute = some iv ∧
              (iv.label.fallback = true ↔
                ∃ o ∈ (DayPlan.ofSelections env before selections).outgoing,
                  o.contains minute = true ∧ o.label.fallback = true) ∧
              (iv.label.fallback = true →
                Selection.said env before (Selection.firm selections)
                  (minute + minutesPerDay) = none) := by
  obtain ⟨selections, hsel, hday⟩ := day_eq_following h
  refine ⟨selections, hsel, ?_⟩
  intro w
  refine ⟨p.week.dayBefore w.index, ?_, ?_⟩
  · rw [hday w, DayPlan.date_following]
    exact Week.dayBefore_eq_iff.1 rfl
  · intro minute own hown hfirm
    rw [hday w, DayPlan.date_following] at hown
    rw [hday w]
    obtain ⟨iv, hiv, hiff⟩ := DayPlan.fallback_inForce?_following hown hfirm
    refine ⟨iv, hiv, hiff, ?_⟩
    intro hfallback
    obtain ⟨o, ho, hm, hofallback⟩ := hiff.1 hfallback
    exact DayPlan.said_firm_eq_none_of_mem_outgoing ho hm hofallback

/-- Monday, 14 June 2021. -/
def bakeryWeek : Date := ⟨738320, by decide, by decide⟩

/-- Open on Tuesday from midnight to 06:00. -/
def bakery : Rule := { id := ⟨"bakery"⟩, weekdays := [.single .tue], times := [.fixed 0 360] }

/-- A fallback from Monday, 22:00, to 02:00, when nothing is known. -/
def nightCall : Rule :=
  { id := ⟨"night"⟩, kind := .fallback, weekdays := [.single .mon], times := [.fixed 1320 120],
    status := .unknown }

/-- On Tuesday at 03:00 nothing is handed on any more, and the bakery is open. -/
theorem fallback_inForce?_bakery :
    ∃ p selections own iv, make [bakery, nightCall] bakeryWeek ⟨2021, 6⟩ {} = .ok p ∧
      [bakery, nightCall].mapM (Selection.ofRule ⟨2021, 6⟩) = .ok selections ∧
      (DayPlan.ofSelections {} (p.day .tue).date selections).inForce? 180 = some own ∧
      own.label = bakery.label ∧
      (p.day .tue).inForce? 180 = some iv ∧ iv.label.fallback = false := by
  obtain ⟨p, hp⟩ : ∃ p, make [bakery, nightCall] bakeryWeek ⟨2021, 6⟩ {} = .ok p := ⟨_, rfl⟩
  obtain ⟨selections, hsel, hday⟩ := fallback_inForce?_iff hp
  obtain ⟨before, hbefore, hspec⟩ := hday .tue
  have hlabel : ((DayPlan.ofSelections {} (p.day .tue).date selections).inForce? 180).map
      Interval.label = some bakery.label := by
    cases hp
    cases hsel
    decide +kernel
  obtain ⟨own, hown, hbakery⟩ := Option.map_eq_some_iff.1 hlabel
  obtain ⟨iv, hiv, hiff, _⟩ := hspec 180 own hown (hbakery ▸ rfl)
  refine ⟨p, selections, own, iv, hp, hsel, hown, hbakery, hiv, ?_⟩
  rw [← Bool.not_eq_true, hiff]
  cases hp
  cases hsel
  obtain rfl : before = bakeryWeek := Date.ext ((Int.add_left_inj 1).1 hbefore)
  decide +kernel

/-- On Tuesday at 01:00 the fallback of the day before goes before the bakery. -/
theorem nightCall_masks_bakery :
    ∃ p selections, make [bakery, nightCall] bakeryWeek ⟨2021, 6⟩ {} = .ok p ∧
      [bakery, nightCall].mapM (Selection.ofRule ⟨2021, 6⟩) = .ok selections ∧
      ((DayPlan.ofSelections {} (p.day .tue).date selections).inForce? 60).map Interval.label =
        some bakery.label ∧ bakery.label.fallback = false ∧
      ((p.day .tue).inForce? 60).map Interval.label = some nightCall.label ∧
      nightCall.label.fallback = true :=
  ⟨_, _, rfl, rfl, by decide +kernel, rfl, by decide +kernel, rfl⟩

end WeekPlan

end OpeningHours
