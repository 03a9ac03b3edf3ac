import OpeningHours.Proofs.Insertion
import Mathlib.Data.List.Sort

/-!
# Insertions that do not meet come to the same in either order

Two insertions without a common minute write to different minutes, so the maps they make of a
timeline are the same in either order. That the lists are the same too, interval by interval, is
more: intervals are cut into pieces on the way, and the pieces have to come out alike.

They do because a piece is never cut shorter than it has to be. What is left of an interval
beside others is made of runs, each as long as the minutes allow, and the runs of a set of
minutes do not depend on the order in which the others were taken out. As a tidy timeline is
known by the intervals in it, it remains to see which intervals an insertion leaves: of each old
interval what it spares, and besides what it adds. Neither is changed by an insertion elsewhere.
-/

namespace OpeningHours

namespace Interval

variable {free : Nat → Prop} {iv p q a b : Interval}

/-! ## Runs -/

/-- The interval is a run of minutes with a property: as many in a row as have it. -/
structure IsRun (free : Nat → Prop) (iv : Interval) : Prop where
  minutes : iv.start < iv.stop
  inside : ∀ minute, iv.contains minute = true → free minute
  starts : ∀ minute, minute + 1 = iv.start → ¬free minute
  stops : ¬free iv.stop

/-- A run lies within every run of the same minutes that it meets. -/
theorem IsRun.within_of_meet (hp : p.IsRun free) (hq : q.IsRun free) {minute : Nat}
    (hpm : p.contains minute = true) (hqm : q.contains minute = true) :
    q.start ≤ p.start ∧ p.stop ≤ q.stop := by
  rw [contains_iff] at hpm hqm
  refine ⟨?_, ?_⟩
  · by_contra hlt
    -- the minute before the start of `q` would belong to `p`
    have hbefore : p.contains (q.start - 1) = true := contains_iff.2 ⟨by omega, by omega⟩
    exact hq.starts (q.start - 1) (by omega) (hp.inside _ hbefore)
  · by_contra hlt
    have hafter : p.contains q.stop = true := contains_iff.2 ⟨by omega, by omega⟩
    exact hq.stops (hp.inside _ hafter)

theorem IsRun.unique (hp : p.IsRun free) (hq : q.IsRun free) {minute : Nat}
    (hpm : p.contains minute = true) (hqm : q.contains minute = true) :
    p.start = q.start ∧ p.stop = q.stop := by
  obtain ⟨hstart, hstop⟩ := hp.within_of_meet hq hpm hqm
  obtain ⟨hstart', hstop'⟩ := hq.within_of_meet hp hqm hpm
  exact ⟨Nat.le_antisymm hstart' hstart, Nat.le_antisymm hstop hstop'⟩

/-- What is left of a run beside an interval with minutes is a run of what is left. -/
theorem IsRun.of_mem_minus (ha : a.IsRun free) (hb : b.start < b.stop) (h : p ∈ a.minus b) :
    p.IsRun fun minute => free minute ∧ b.contains minute = false := by
  obtain ⟨hlt, _, hends⟩ := (mem_minus_iff ha.minutes).1 h
  have hbounds := bounds_of_mem_minus h
  refine ⟨hlt, ?_, ?_, ?_⟩
  · intro minute hm
    obtain ⟨ham, hbm⟩ := exists_mem_minus_contains.1 ⟨p, h, hm⟩
    exact ⟨ha.inside minute ham, hbm⟩
  · intro minute hm hgiven
    obtain ⟨hfree, hbm⟩ := hgiven
    rw [contains_eq_false_iff] at hbm
    -- a piece starts where `a` does or where `b` stops
    by_cases hstart : minute + 1 = a.start
    · exact ha.starts minute hstart hfree
    · omega
  · intro hgiven
    obtain ⟨hfree, hbm⟩ := hgiven
    rw [contains_eq_false_iff] at hbm
    by_cases hstop : p.stop = a.stop
    · exact ha.stops (hstop ▸ hfree)
    · omega

/-- An interval beside another is left as it is. -/
theorem minus_eq_self (ha : a.start < a.stop) (hapart : a.stop ≤ b.start ∨ b.stop ≤ a.start) :
    a.minus b = [a] := by
  have hb := b.start_le_stop
  rw [minus_eq ha]
  rcases hapart with hle | hle
  · rw [Nat.min_eq_left hle, piece?_self ha, piece?_eq_none (by omega)]
    rfl
  · rw [piece?_eq_none (by omega), Nat.max_eq_left hle, piece?_self ha]
    rfl

theorem minus_self (ha : a.start < a.stop) : a.minus a = [] := by
  refine List.eq_nil_iff_forall_not_mem.2 fun p hp => ?_
  have hlt := lt_of_mem_minus ha hp
  have hbounds := bounds_of_mem_minus hp
  omega

end Interval

namespace Timeline

open OpeningHours.Interval

variable {list pieces : Timeline} {label : Label} {free : Nat → Prop} {iv p a b : Interval}

/-- The intervals are the runs of the minutes with a property, under one label. -/
structure AreRuns (label : Label) (free : Nat → Prop) (pieces : Timeline) : Prop where
  runs : ∀ p ∈ pieces, p.label = label ∧ p.IsRun free
  covered : ∀ minute, free minute → ∃ p ∈ pieces, p.contains minute = true

/-- Which intervals they are is told by the minutes. -/
theorem AreRuns.mem_iff (h : AreRuns label free pieces) :
    p ∈ pieces ↔ p.label = label ∧ p.IsRun free := by
  refine ⟨h.runs p, ?_⟩
  intro hgiven
  obtain ⟨hlabel, hrun⟩ := hgiven
  have hm := contains_start hrun.minutes
  obtain ⟨q, hq, hqm⟩ := h.covered p.start (hrun.inside _ hm)
  obtain ⟨hqlabel, hqrun⟩ := h.runs q hq
  obtain ⟨hstart, hstop⟩ := hrun.unique hqrun hm hqm
  have heq : p = q := Interval.ext hstart hstop (hlabel.trans hqlabel.symm)
  exact heq ▸ hq

theorem areRuns_singleton (h : iv.start < iv.stop) :
    AreRuns iv.label (fun minute => iv.contains minute = true) [iv] := by
  refine ⟨?_, ?_⟩
  · intro p hp
    obtain rfl := List.mem_singleton.1 hp
    refine ⟨rfl, h, fun _ hm => hm, ?_, ?_⟩
    · intro minute hm
      rw [contains_iff]
      omega
    · rw [contains_iff]
      omega
  · intro minute hm
    exact ⟨iv, List.mem_singleton_self iv, hm⟩

/-- Taking an interval with minutes out of runs leaves the runs of what is left. -/
theorem AreRuns.without (h : AreRuns label free pieces) (hb : b.start < b.stop) :
    AreRuns label (fun minute => free minute ∧ b.contains minute = false) (pieces.without b) := by
  refine ⟨?_, ?_⟩
  · intro p hp
    obtain ⟨a, ha, hpa⟩ := mem_without.1 hp
    obtain ⟨hlabel, hrun⟩ := h.runs a ha
    exact ⟨(bounds_of_mem_minus hpa).1.trans hlabel, hrun.of_mem_minus hb hpa⟩
  · intro minute hgiven
    obtain ⟨hfree, hbm⟩ := hgiven
    obtain ⟨a, ha, ham⟩ := h.covered minute hfree
    obtain ⟨p, hpa, hpm⟩ := exists_mem_minus_contains.2 ⟨ham, hbm⟩
    exact ⟨p, mem_without.2 ⟨a, ha, hpa⟩, hpm⟩

theorem AreRuns.foldl_without (h : AreRuns label free pieces)
    (hlist : ∀ e ∈ list, e.start < e.stop) :
    AreRuns label (fun minute => free minute ∧ ∀ e ∈ list, e.contains minute = false)
      (list.foldl Timeline.without pieces) := by
  induction list generalizing free pieces with
  | nil => simpa using h
  | cons head rest ih =>
      obtain ⟨hhead, hrest⟩ := List.forall_mem_cons.1 hlist
      have hruns := ih (h.without hhead) hrest
      rw [List.foldl_cons]
      simpa only [List.forall_mem_cons, and_assoc] using hruns

/-- What two intervals leave of a third is told by the minutes that neither of them has. -/
theorem mem_minus_minus_iff (hiv : iv.start < iv.stop) (ha : a.start < a.stop)
    (hb : b.start < b.stop) :
    (∃ q ∈ iv.minus a, p ∈ q.minus b) ↔ p.label = iv.label ∧ p.IsRun fun minute =>
      (iv.contains minute = true ∧ a.contains minute = false) ∧ b.contains minute = false := by
  rw [← (((areRuns_singleton hiv).without ha).without hb).mem_iff]
  simp only [mem_without, List.mem_singleton, exists_eq_left]

/-- What an interval laid under a timeline adds is told by the minutes nobody spoke for. -/
theorem mem_fill_iff (h : list.Tidy) (hiv : iv.start < iv.stop) :
    p ∈ list.fill iv ↔ p.label = iv.label ∧
      p.IsRun fun minute => iv.contains minute = true ∧ list.labelAt minute = none := by
  have hruns := (areRuns_singleton hiv).foldl_without h.minutes
  rw [mem_fill_iff_mem_foldl, and_iff_left_of_imp fun hp => (hruns.runs p hp).2.minutes]
  simp only [hruns.mem_iff, labelAt_eq_none_iff]

/-- A tidy timeline is known by the intervals in it. -/
theorem Tidy.ext {list list' : Timeline} (h : list.Tidy) (h' : list'.Tidy)
    (hmem : ∀ iv, iv ∈ list ↔ iv ∈ list') : list = list' := by
  let before (a b : Interval) : Prop := a.start < b.start
  have hirrefl : Std.Irrefl before := ⟨fun a => Nat.lt_irrefl a.start⟩
  have hantisymm : Std.Antisymm before := ⟨fun _ _ hab hba => absurd hba (Nat.lt_asymm hab)⟩
  have hstarts : ∀ {list : Timeline}, list.Tidy → list.Pairwise before := by
    intro list h
    refine List.Pairwise.imp_of_mem ?_ h.ordered
    intro a b ha _ hab
    exact Nat.lt_of_lt_of_le (h.minutes a ha) hab
  exact List.Pairwise.eq_of_mem_iff (hstarts h) (hstarts h') hmem

/-! ## The same interval twice -/

theorem layOver_layOver_self (h : list.Tidy) (iv : Interval) :
    (list.layOver iv).layOver iv = list.layOver iv := by
  refine (tidy_layOver (tidy_layOver h iv) iv).ext (tidy_layOver h iv) fun p => ?_
  rw [mem_layOver, mem_layOver]
  refine or_congr ?_ Iff.rfl
  -- what was cut before lies beside the interval and is not cut again
  have hbeside : ∀ a ∈ list.without iv, a.minus iv = [a] := by
    intro a ha
    obtain ⟨_, _, hpiece⟩ := mem_without.1 ha
    exact minus_eq_self ((tidy_without h iv).minutes a ha) (bounds_of_mem_minus hpiece).2.2.2
  rw [mem_without]
  refine ⟨?_, ?_⟩
  · intro hgiven
    obtain ⟨a, ha, hpa⟩ := hgiven
    rcases mem_layOver.1 ha with ha | ⟨rfl, hlt⟩
    · rw [hbeside a ha, List.mem_singleton] at hpa
      exact hpa ▸ ha
    · rw [minus_self hlt] at hpa
      exact absurd hpa List.not_mem_nil
  · intro hp
    refine ⟨p, mem_layOver.2 (Or.inl hp), ?_⟩
    rw [hbeside p hp]
    exact List.mem_singleton_self p

theorem layUnder_layUnder_self (h : list.Tidy) (iv : Interval) :
    (list.layUnder iv).layUnder iv = list.layUnder iv := by
  have hunder := tidy_layUnder h iv
  refine (tidy_layUnder hunder iv).ext hunder fun p => ?_
  refine mem_layUnder.trans ⟨?_, Or.inl⟩
  intro hgiven
  rcases hgiven with hp | hp
  · exact hp
  · -- no minute of the interval is left for a second one
    have hm := contains_start (mem_fill hp).1
    obtain ⟨hiv, hout⟩ := exists_mem_fill_contains.1 ⟨p, hp, hm⟩
    have hnone := labelAt_eq_none_iff.2 hout
    rw [labelAt_layUnder h, if_pos hiv, Option.or_eq_none_iff] at hnone
    exact absurd hnone.2 (Option.some_ne_none _)

end Timeline

namespace Insertion

open OpeningHours.Interval Timeline

variable {list : Timeline} {i j : Insertion} {a p q : Interval} {minute : Nat}

/-- The interval that is put in. -/
def interval : Insertion → Interval
  | layOver iv => iv
  | layUnder iv => iv

/-- What is left of an interval that is there already. -/
def spares (i : Insertion) (a : Interval) : List Interval :=
  match i with
  | layOver iv => a.minus iv
  | layUnder _ => [a]

/-- The intervals that come into a timeline. -/
def adds (list : Timeline) (i : Insertion) : List Interval :=
  match i with
  | layOver iv => if iv.isEmpty then [] else [iv]
  | layUnder iv => list.fill iv

/-! ## One insertion -/

theorem mem_into : p ∈ i.into list ↔ (∃ a ∈ list, p ∈ i.spares a) ∨ p ∈ i.adds list := by
  cases i with
  | layOver iv =>
      show p ∈ list.layOver iv ↔ _
      rw [Timeline.layOver, (sorted_perm _).mem_iff, List.mem_append, mem_without]
      rfl
  | layUnder iv =>
      show p ∈ list.layUnder iv ↔ _
      rw [mem_layUnder]
      refine or_congr ?_ Iff.rfl
      simp only [spares, List.mem_singleton, exists_eq_right']

/-- What comes in lies within the interval that is put in. -/
theorem bounds_of_mem_adds (h : q ∈ i.adds list) :
    q.start < q.stop ∧ i.interval.start ≤ q.start ∧ q.stop ≤ i.interval.stop := by
  cases i with
  | layOver iv =>
      have hq : q ∈ if iv.isEmpty then [] else [iv] := h
      split at hq
      · exact absurd hq List.not_mem_nil
      · rename_i hne
        obtain rfl := List.mem_singleton.1 hq
        have hlt := isEmpty_eq_false_iff.1 (Bool.not_eq_true _ ▸ hne)
        exact ⟨hlt, Nat.le_refl _, Nat.le_refl _⟩
  | layUnder iv =>
      obtain ⟨whole, hwhole, _, hstart, hstop, _⟩ :=
        bounds_of_mem_foldl_without (mem_fill_iff_mem_foldl.1 h).1
      obtain rfl := List.mem_singleton.1 hwhole
      exact ⟨(mem_fill h).1, hstart, hstop⟩

theorem labelAt_into_of_not_contains (h : list.Tidy) (hm : i.interval.contains minute = false) :
    (i.into list).labelAt minute = list.labelAt minute := by
  rw [labelAt_into h]
  cases i with
  | layOver iv => exact if_neg (Bool.not_eq_true _ ▸ hm)
  | layUnder iv => exact if_neg fun hgiven => Bool.false_ne_true (hm.symm.trans hgiven.1)

/-! ## Two insertions -/

theorem spares_of_mem_adds (hapart : Apart i.interval j.interval) (h : q ∈ i.adds list) :
    j.spares q = [q] := by
  obtain ⟨hlt, hstart, hstop⟩ := bounds_of_mem_adds h
  cases j with
  | layOver iv =>
      refine minus_eq_self hlt ?_
      unfold Apart at hapart
      show q.stop ≤ (layOver iv).interval.start ∨ (layOver iv).interval.stop ≤ q.start
      omega
  | layUnder iv => rfl

/-- What an insertion adds is not changed by one elsewhere. -/
theorem mem_adds_into (h : list.Tidy) (hj : j.interval.start < j.interval.stop)
    (hapart : Apart i.interval j.interval) : p ∈ j.adds (i.into list) ↔ p ∈ j.adds list := by
  cases j with
  | layOver iv => exact Iff.rfl
  | layUnder iv =>
      have hiv : iv.start < iv.stop := hj
      have hsame : ∀ minute, (iv.contains minute = true ∧ (i.into list).labelAt minute = none) ↔
          (iv.contains minute = true ∧ list.labelAt minute = none) := by
        intro minute
        refine and_congr_right fun hm => ?_
        have hout : i.interval.contains minute = false := by
          rw [contains_eq_false_iff]
          rw [contains_iff] at hm
          rcases hapart with hle | hle
          · exact Or.inr (Nat.le_trans hle hm.1)
          · exact Or.inl (Nat.lt_of_lt_of_le hm.2 hle)
        rw [labelAt_into_of_not_contains h hout]
      show p ∈ (i.into list).fill iv ↔ p ∈ list.fill iv
      rw [mem_fill_iff (tidy_into h i) hiv, mem_fill_iff h hiv]
      simp only [hsame]

/-- What two insertions spare of an interval does not depend on their order. -/
theorem spares_comm (ha : a.start < a.stop) (hi : i.interval.start < i.interval.stop)
    (hj : j.interval.start < j.interval.stop) :
    (∃ q ∈ i.spares a, p ∈ j.spares q) ↔ ∃ q ∈ j.spares a, p ∈ i.spares q := by
  cases i with
  | layUnder iv => simp only [spares, List.mem_singleton, exists_eq_left, exists_eq_right']
  | layOver iv =>
      cases j with
      | layUnder iv' => simp only [spares, List.mem_singleton, exists_eq_left, exists_eq_right']
      | layOver iv' =>
          have hiv : iv.start < iv.stop := hi
          have hiv' : iv'.start < iv'.stop := hj
          show (∃ q ∈ a.minus iv, p ∈ q.minus iv') ↔ ∃ q ∈ a.minus iv', p ∈ q.minus iv
          rw [mem_minus_minus_iff ha hiv hiv', mem_minus_minus_iff ha hiv' hiv]
          simp only [and_right_comm]

/-- Two insertions leave what both spare, and each of them adds what it adds by itself. -/
theorem mem_into_into (h : list.Tidy) (hj : j.interval.start < j.interval.stop)
    (hapart : Apart i.interval j.interval) :
    p ∈ j.into (i.into list) ↔ (∃ a ∈ list, ∃ q ∈ i.spares a, p ∈ j.spares q) ∨
      p ∈ i.adds list ∨ p ∈ j.adds list := by
  rw [mem_into, mem_adds_into h hj hapart, ← or_assoc]
  refine or_congr ?_ Iff.rfl
  refine ⟨?_, ?_⟩
  · intro hgiven
    obtain ⟨q, hq, hp⟩ := hgiven
    rcases mem_into.1 hq with ⟨a, ha, hqa⟩ | hq
    · exact Or.inl ⟨a, ha, q, hqa, hp⟩
    · rw [spares_of_mem_adds hapart hq, List.mem_singleton] at hp
      exact Or.inr (hp ▸ hq)
  · intro hgiven
    rcases hgiven with ⟨a, ha, q, hqa, hp⟩ | hp
    · exact ⟨q, mem_into.2 (Or.inl ⟨a, ha, hqa⟩), hp⟩
    · refine ⟨p, mem_into.2 (Or.inr hp), ?_⟩
      rw [spares_of_mem_adds hapart hp]
      exact List.mem_singleton_self p

theorem into_into_self (h : list.Tidy) (i : Insertion) : i.into (i.into list) = i.into list := by
  cases i with
  | layOver iv => exact layOver_layOver_self h iv
  | layUnder iv => exact layUnder_layUnder_self h iv

theorem into_comm (h : list.Tidy) (hi : i.interval.start < i.interval.stop)
    (hj : j.interval.start < j.interval.stop) (hapart : Apart i.interval j.interval) :
    j.into (i.into list) = i.into (j.into list) := by
  refine (tidy_into (tidy_into h i) j).ext (tidy_into (tidy_into h j) i) fun p => ?_
  rw [mem_into_into h hj hapart, mem_into_into h hi hapart.symm]
  refine or_congr ?_ or_comm
  refine exists_congr fun a => and_congr_right fun ha => ?_
  exact spares_comm (h.minutes a ha) hi hj

/--
**An insertion counts once, and insertions that do not meet come in either order.**

Into a timeline made by any run of insertions, putting an interval in a second time in the same
way changes nothing. Two insertions of intervals with minutes, but with none in common, make the
same list in either order, be each of them over or under what is there, and though the intervals
may touch.
-/
theorem into_idempotent_and_comm (run : List Insertion) :
    let list := run.foldl into []
    (∀ i, into (into list i) i = into list i) ∧
      ∀ i j, i.interval.start < i.interval.stop → j.interval.start < j.interval.stop →
        (∀ minute, ¬(i.interval.contains minute = true ∧ j.interval.contains minute = true)) →
          into (into list i) j = into (into list j) i := by
  intro list
  have htidy : list.Tidy := tidy_foldl_into tidy_nil run
  refine ⟨into_into_self htidy, ?_⟩
  intro i j hi hj hnone
  refine into_comm htidy hi hj ?_
  -- of two intervals that are not apart the later start is a common minute
  by_contra hmeet
  unfold Apart at hmeet
  refine hnone (max i.interval.start j.interval.start) ⟨?_, ?_⟩
  · exact contains_iff.2 ⟨by omega, by omega⟩
  · exact contains_iff.2 ⟨by omega, by omega⟩

/-- Open from 8:00 to 12:00. -/
def morning : Insertion := .layOver ⟨480, 720, { status := .opened }, by decide, by decide, by decide⟩

/-- Closed for a break from 9:00 to 9:15. -/
def pause : Insertion := .layOver ⟨540, 555, { status := .closed }, by decide, by decide, by decide⟩

/-- Unknown from 9:15 to 13:00, where nothing else is said. -/
def rest : Insertion := .layUnder ⟨555, 780, { status := .unknown }, by decide, by decide, by decide⟩

/-- The pause and the rest touch, and one cuts the morning that the other one goes around. -/
theorem into_idempotent_and_comm_pause :
    let list := [morning].foldl into []
    into (into list pause) pause = into list pause ∧
      into (into list pause) rest = into (into list rest) pause ∧
      (into (into list pause) rest).map Interval.span =
        [(480, 540), (540, 555), (555, 720), (720, 780)] := by
  obtain ⟨htwice, hcomm⟩ := into_idempotent_and_comm [morning]
  refine ⟨htwice pause, hcomm pause rest (by decide) (by decide) ?_, by decide⟩
  intro minute hboth
  have hpause := contains_iff.1 hboth.1
  have hrest := contains_iff.1 hboth.2
  exact absurd (Nat.lt_of_le_of_lt hrest.1 hpause.2) (Nat.lt_irrefl 555)

end Insertion

end OpeningHours
