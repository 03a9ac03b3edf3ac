import OpeningHours.Proofs.Interval
import OpeningHours.Timeline.Basic
import Mathlib.Data.List.Pairwise

/-!
# Timelines stay tidy

The intervals of a timeline have minutes and come one after the other: no insertion ever
leaves two that overlap. That is the invariant, and it is what makes a timeline a map from
minutes to labels: at most one interval has a given minute, so the first one found is the
only one.

Read as maps, the two insertions are what their names say. Laid over, an interval speaks for
all its minutes; laid under, for those alone that nobody spoke for.
-/

namespace OpeningHours.Timeline

/-- The intervals of a timeline have minutes and come one after the other. -/
structure Tidy (list : Timeline) : Prop where
  minutes : ∀ iv ∈ list, iv.start < iv.stop
  ordered : list.Pairwise fun a b => a.stop ≤ b.start

/-- Two intervals without a minute in common, in either order. -/
def Apart (a b : Interval) : Prop := a.stop ≤ b.start ∨ b.stop ≤ a.start

instance : Std.Symm Apart := ⟨fun _ _ h => h.symm⟩

theorem tidy_nil : Tidy [] := ⟨by simp, List.Pairwise.nil⟩

/-! ## Sorting -/

theorem precedes_iff {a b : Interval} :
    precedes a b = true ↔ a.start < b.start ∨ a.start = b.start ∧ a.stop ≤ b.stop := by
  simp [precedes]

theorem place_perm (iv : Interval) (list : Timeline) : (place iv list).Perm (iv :: list) := by
  induction list with
  | nil => exact List.Perm.refl _
  | cons head rest ih =>
      rw [place]
      split
      · exact List.Perm.refl _
      · exact (ih.cons head).trans (List.Perm.swap iv head rest)

theorem sorted_perm (list : Timeline) : (sorted list).Perm list := by
  induction list with
  | nil => exact List.Perm.refl _
  | cons iv rest ih => exact (place_perm iv (sorted rest)).trans (ih.cons iv)

theorem pairwise_place {iv : Interval} {list : Timeline}
    (h : list.Pairwise fun a b => precedes a b = true) :
    (place iv list).Pairwise fun a b => precedes a b = true := by
  induction list with
  | nil => exact List.pairwise_singleton _ _
  | cons head rest ih =>
      obtain ⟨hhead, hrest⟩ := List.pairwise_cons.1 h
      rw [place]
      split
      · rename_i hle
        refine List.pairwise_cons.2 ⟨?_, h⟩
        intro x hx
        rcases List.mem_cons.1 hx with rfl | hx
        · exact hle
        · have hxy := hhead x hx
          rw [precedes_iff] at hle hxy ⊢
          omega
      · rename_i hgt
        refine List.pairwise_cons.2 ⟨?_, ih hrest⟩
        -- after the head come the new interval and what stood there before
        intro x hx
        rcases List.mem_cons.1 ((place_perm iv rest).mem_iff.1 hx) with rfl | hx
        · rw [precedes_iff] at hgt ⊢
          omega
        · exact hhead x hx

theorem pairwise_sorted (list : Timeline) :
    (sorted list).Pairwise fun a b => precedes a b = true := by
  induction list with
  | nil => exact List.Pairwise.nil
  | cons iv rest ih => exact pairwise_place ih

/-- Sorting makes a timeline of any intervals that have minutes and none in common. -/
theorem tidy_sorted {list : Timeline} (hm : ∀ iv ∈ list, iv.start < iv.stop)
    (ha : list.Pairwise Apart) : (sorted list).Tidy := by
  have hperm := sorted_perm list
  have hm' : ∀ iv ∈ sorted list, iv.start < iv.stop := fun iv hiv => hm iv (hperm.mem_iff.1 hiv)
  refine ⟨hm', ?_⟩
  have ha' : (sorted list).Pairwise Apart := hperm.symm.pairwise ha fun h => h.symm
  refine List.Pairwise.imp_of_mem ?_ (ha'.and (pairwise_sorted list))
  intro a b hamem hbmem hab
  obtain ⟨hapart, hle⟩ := hab
  have hb := hm' b hbmem
  rw [precedes_iff] at hle
  rcases hapart with h | h
  · exact h
  · omega

/-! ## A tidy timeline is a map from minutes to labels -/

theorem Tidy.pairwise_apart {list : Timeline} (h : list.Tidy) : list.Pairwise Apart :=
  h.ordered.imp fun hab => Or.inl hab

/-- Of intervals that lie apart, two that have a minute in common are one. -/
theorem eq_of_contains {list : Timeline} (h : list.Pairwise Apart) {a b : Interval} {minute : Nat}
    (ha : a ∈ list) (hb : b ∈ list) (hma : a.contains minute = true)
    (hmb : b.contains minute = true) : a = b := by
  rw [Interval.contains_iff] at hma hmb
  by_contra hne
  have hapart : Apart a b := h.forall ha hb hne
  unfold Apart at hapart
  omega

/-- Where one interval at most passes a test, it is the one found. -/
theorem find?_eq_some_iff_of_unique {list : Timeline} {p : Interval → Bool} {iv : Interval}
    (h : ∀ a ∈ list, ∀ b ∈ list, p a = true → p b = true → a = b) :
    List.find? p list = some iv ↔ iv ∈ list ∧ p iv = true := by
  have hfound : ∀ {found : Interval}, List.find? p list = some found →
      found ∈ list ∧ p found = true := fun hf =>
    ⟨List.mem_of_find?_eq_some hf, List.find?_some hf⟩
  refine ⟨?_, ?_⟩
  · exact hfound
  · intro hgiven
    obtain ⟨hmem, hp⟩ := hgiven
    have hsome : (List.find? p list).isSome := by
      rw [List.find?_isSome]
      exact ⟨iv, hmem, hp⟩
    obtain ⟨found, hf⟩ := Option.isSome_iff_exists.1 hsome
    rw [hf, h found (hfound hf).1 iv hmem (hfound hf).2 hp]

theorem covering?_eq_some_iff {list : Timeline} (h : list.Pairwise Apart) {iv : Interval}
    {minute : Nat} :
    list.covering? minute = some iv ↔ iv ∈ list ∧ iv.contains minute = true :=
  find?_eq_some_iff_of_unique fun _ ha _ hb hma hmb => eq_of_contains h ha hb hma hmb

theorem covering?_eq_none_iff {list : Timeline} {minute : Nat} :
    list.covering? minute = none ↔ ∀ iv ∈ list, iv.contains minute = false := by
  simp [covering?]

/-- What is said of a minute is what any of the intervals that has it says. -/
theorem labelAt_eq_some_iff {list : Timeline} (h : list.Pairwise Apart) {label : Label}
    {minute : Nat} :
    list.labelAt minute = some label ↔
      ∃ iv ∈ list, iv.contains minute = true ∧ iv.label = label := by
  unfold labelAt
  rw [Option.map_eq_some_iff]
  refine ⟨?_, ?_⟩
  · intro hgiven
    obtain ⟨iv, hiv, hl⟩ := hgiven
    obtain ⟨hmem, hm⟩ := (covering?_eq_some_iff h).1 hiv
    exact ⟨iv, hmem, hm, hl⟩
  · intro hgiven
    obtain ⟨iv, hmem, hm, hl⟩ := hgiven
    exact ⟨iv, (covering?_eq_some_iff h).2 ⟨hmem, hm⟩, hl⟩

/-- The order of intervals that lie apart does not matter to what is said of a minute. -/
theorem labelAt_of_perm {a b : Timeline} (hp : a.Perm b) (h : b.Pairwise Apart) (minute : Nat) :
    a.labelAt minute = b.labelAt minute := by
  have ha : a.Pairwise Apart := hp.symm.pairwise h fun hab => hab.symm
  ext label
  rw [labelAt_eq_some_iff ha, labelAt_eq_some_iff h]
  simp only [hp.mem_iff]

theorem labelAt_eq_none_iff {list : Timeline} {minute : Nat} :
    list.labelAt minute = none ↔ ∀ iv ∈ list, iv.contains minute = false := by
  rw [labelAt, Option.map_eq_none_iff, covering?_eq_none_iff]

theorem labelAt_cons (iv : Interval) (list : Timeline) (minute : Nat) :
    labelAt (iv :: list) minute =
      if iv.contains minute then some iv.label else list.labelAt minute := by
  unfold labelAt covering?
  rw [List.find?_cons]
  cases iv.contains minute <;> rfl

theorem labelAt_append (a b : Timeline) (minute : Nat) :
    labelAt (a ++ b) minute = (a.labelAt minute).or (b.labelAt minute) := by
  unfold labelAt covering?
  rw [List.find?_append]
  cases List.find? (Interval.contains · minute) a <;> rfl

/-! ## Laying over -/

theorem mem_without {list : Timeline} {iv p : Interval} :
    p ∈ list.without iv ↔ ∃ a ∈ list, p ∈ a.minus iv := List.mem_flatMap

theorem ordered_without {list : Timeline} (h : list.Pairwise fun a b => a.stop ≤ b.start)
    (iv : Interval) : (list.without iv).Pairwise fun a b => a.stop ≤ b.start := by
  refine List.pairwise_flatMap.2 ⟨fun a _ => Interval.pairwise_minus, h.imp ?_⟩
  intro a b hab p hp q hq
  have hpb := Interval.bounds_of_mem_minus hp
  have hqb := Interval.bounds_of_mem_minus hq
  omega

theorem tidy_without {list : Timeline} (h : list.Tidy) (iv : Interval) :
    (list.without iv).Tidy := by
  refine ⟨?_, ordered_without h.ordered iv⟩
  intro p hp
  obtain ⟨a, ha, hpa⟩ := mem_without.1 hp
  exact Interval.lt_of_mem_minus (h.minutes a ha) hpa

theorem mem_layOver {list : Timeline} {iv p : Interval} :
    p ∈ list.layOver iv ↔ p ∈ list.without iv ∨ p = iv ∧ iv.start < iv.stop := by
  have hle := iv.start_le_stop
  rw [layOver, (sorted_perm _).mem_iff, List.mem_append]
  refine or_congr Iff.rfl ?_
  rw [Interval.isEmpty]
  split
  · rename_i h
    rw [beq_iff_eq] at h
    simp only [List.not_mem_nil, false_iff]
    omega
  · rename_i h
    rw [beq_iff_eq] at h
    rw [List.mem_singleton]
    exact ⟨fun hp => ⟨hp, by omega⟩, fun hp => hp.1⟩

theorem tidy_layOver {list : Timeline} (h : list.Tidy) (iv : Interval) :
    (list.layOver iv).Tidy := by
  have hleft := tidy_without h iv
  refine tidy_sorted ?_ ?_
  · intro p hp
    rcases mem_layOver.1 ((sorted_perm _).mem_iff.2 hp) with hp | ⟨rfl, hlt⟩
    · exact hleft.minutes p hp
    · exact hlt
  · refine List.pairwise_append.2 ⟨hleft.pairwise_apart, ?_, ?_⟩
    · split
      · exact List.Pairwise.nil
      · exact List.pairwise_singleton _ _
    · intro p hp q hq
      obtain ⟨a, _, hpa⟩ := mem_without.1 hp
      have hq : q = iv := by
        split at hq
        · exact absurd hq List.not_mem_nil
        · exact List.mem_singleton.1 hq
      rw [hq]
      exact (Interval.bounds_of_mem_minus hpa).2.2.2

/-- **Laid over, an interval speaks for all its minutes.** -/
theorem labelAt_layOver {list : Timeline} (h : list.Tidy) (iv : Interval) (minute : Nat) :
    (list.layOver iv).labelAt minute =
      if iv.contains minute then some iv.label else list.labelAt minute := by
  ext label
  rw [labelAt_eq_some_iff (tidy_layOver h iv).pairwise_apart]
  split
  · rename_i hm
    refine ⟨?_, ?_⟩
    · intro hgiven
      obtain ⟨p, hp, hpm, hl⟩ := hgiven
      rcases mem_layOver.1 hp with hp | ⟨rfl, _⟩
      · -- a piece of the old timeline has none of the minutes taken out
        obtain ⟨a, _, hpa⟩ := mem_without.1 hp
        have hout := (Interval.exists_mem_minus_contains.1 ⟨p, hpa, hpm⟩).2
        rw [hm] at hout
        exact absurd hout (by decide)
      · rw [hl]
    · intro hl
      have hlt := Interval.contains_iff.1 hm
      exact ⟨iv, mem_layOver.2 (Or.inr ⟨rfl, by omega⟩), hm, Option.some.inj hl⟩
  · rename_i hm
    rw [Bool.not_eq_true] at hm
    rw [labelAt_eq_some_iff h.pairwise_apart]
    refine ⟨?_, ?_⟩
    · intro hgiven
      obtain ⟨p, hp, hpm, hl⟩ := hgiven
      rcases mem_layOver.1 hp with hp | ⟨rfl, _⟩
      · obtain ⟨a, ha, hpa⟩ := mem_without.1 hp
        refine ⟨a, ha, (Interval.exists_mem_minus_contains.1 ⟨p, hpa, hpm⟩).1, ?_⟩
        rw [← hl, (Interval.bounds_of_mem_minus hpa).1]
      · rw [hm] at hpm
        exact absurd hpm (by decide)
    · intro hgiven
      obtain ⟨a, ha, ham, hl⟩ := hgiven
      obtain ⟨p, hpa, hpm⟩ := Interval.exists_mem_minus_contains.2 ⟨ham, hm⟩
      refine ⟨p, mem_layOver.2 (Or.inl (mem_without.2 ⟨a, ha, hpa⟩)), hpm, ?_⟩
      rw [(Interval.bounds_of_mem_minus hpa).1, hl]

/-! ## Laying under -/

/-- Taking intervals out of pieces one after the other leaves parts of the pieces beside them all. -/
theorem bounds_of_mem_foldl_without {list pieces : Timeline} {p : Interval}
    (h : p ∈ list.foldl without pieces) :
    ∃ a ∈ pieces, p.label = a.label ∧ a.start ≤ p.start ∧ p.stop ≤ a.stop ∧
      ∀ e ∈ list, Apart p e := by
  induction list generalizing pieces with
  | nil => exact ⟨p, h, rfl, Nat.le_refl _, Nat.le_refl _, by simp⟩
  | cons head rest ih =>
      -- `q` is what the head has left, and `p` what the others leave of it
      obtain ⟨q, hq, hql, hqs, hqe, hrest⟩ := ih h
      obtain ⟨a, ha, hqa⟩ := mem_without.1 hq
      obtain ⟨hal, has, hae, hout⟩ := Interval.bounds_of_mem_minus hqa
      refine ⟨a, ha, hql.trans hal, by omega, by omega, ?_⟩
      intro e he
      rcases List.mem_cons.1 he with rfl | he
      · unfold Apart
        omega
      · exact hrest e he

/-- What is left of an interval has the minutes that no interval of the list has. -/
theorem exists_mem_foldl_without_contains {list pieces : Timeline} {minute : Nat} :
    (∃ p ∈ list.foldl without pieces, p.contains minute = true) ↔
      (∃ a ∈ pieces, a.contains minute = true) ∧ ∀ e ∈ list, e.contains minute = false := by
  induction list generalizing pieces with
  | nil => simp
  | cons head rest ih =>
      rw [List.foldl_cons, ih, List.forall_mem_cons, ← and_assoc]
      refine and_congr ?_ Iff.rfl
      refine ⟨?_, ?_⟩
      · intro hgiven
        obtain ⟨q, hq, hqm⟩ := hgiven
        obtain ⟨a, ha, hqa⟩ := mem_without.1 hq
        obtain ⟨ham, hm⟩ := Interval.exists_mem_minus_contains.1 ⟨q, hqa, hqm⟩
        exact ⟨⟨a, ha, ham⟩, hm⟩
      · intro hgiven
        obtain ⟨⟨a, ha, ham⟩, hm⟩ := hgiven
        obtain ⟨q, hqa, hqm⟩ := Interval.exists_mem_minus_contains.2 ⟨ham, hm⟩
        exact ⟨q, mem_without.2 ⟨a, ha, hqa⟩, hqm⟩

theorem ordered_foldl_without {list pieces : Timeline}
    (h : pieces.Pairwise fun a b => a.stop ≤ b.start) :
    (list.foldl without pieces).Pairwise fun a b => a.stop ≤ b.start := by
  induction list generalizing pieces with
  | nil => exact h
  | cons head rest ih => exact ih (ordered_without h head)

/-- The gaps of a timeline that an interval laid under it fills. -/
def fill (list : Timeline) (iv : Interval) : Timeline :=
  (list.foldl without [iv]).filter (!·.isEmpty)

theorem layUnder_eq (list : Timeline) (iv : Interval) :
    list.layUnder iv = sorted (list ++ list.fill iv) := rfl

theorem mem_fill_iff_mem_foldl {list : Timeline} {iv p : Interval} :
    p ∈ list.fill iv ↔ p ∈ list.foldl without [iv] ∧ p.start < p.stop := by
  rw [fill, List.mem_filter, Bool.not_eq_true', Interval.isEmpty_eq_false_iff]

theorem mem_fill {list : Timeline} {iv p : Interval} (h : p ∈ list.fill iv) :
    p.start < p.stop ∧ p.label = iv.label ∧ ∀ e ∈ list, Apart p e := by
  obtain ⟨hp, hlt⟩ := mem_fill_iff_mem_foldl.1 h
  obtain ⟨a, ha, hl, _, _, hout⟩ := bounds_of_mem_foldl_without hp
  rw [List.mem_singleton.1 ha] at hl
  exact ⟨hlt, hl, hout⟩

theorem exists_mem_fill_contains {list : Timeline} {iv : Interval} {minute : Nat} :
    (∃ p ∈ list.fill iv, p.contains minute = true) ↔
      iv.contains minute = true ∧ ∀ e ∈ list, e.contains minute = false := by
  have hpieces : (∃ p ∈ list.foldl without [iv], p.contains minute = true) ↔ _ :=
    exists_mem_foldl_without_contains
  simp only [List.mem_singleton, exists_eq_left] at hpieces
  rw [← hpieces]
  refine ⟨?_, ?_⟩
  · intro hgiven
    obtain ⟨p, hp, hpm⟩ := hgiven
    exact ⟨p, (mem_fill_iff_mem_foldl.1 hp).1, hpm⟩
  · intro hgiven
    obtain ⟨p, hp, hpm⟩ := hgiven
    have hlt := Interval.contains_iff.1 hpm
    exact ⟨p, mem_fill_iff_mem_foldl.2 ⟨hp, by omega⟩, hpm⟩

theorem mem_layUnder {list : Timeline} {iv p : Interval} :
    p ∈ list.layUnder iv ↔ p ∈ list ∨ p ∈ list.fill iv := by
  rw [layUnder_eq, (sorted_perm _).mem_iff, List.mem_append]

theorem tidy_layUnder {list : Timeline} (h : list.Tidy) (iv : Interval) :
    (list.layUnder iv).Tidy := by
  have hfill : (list.fill iv).Pairwise fun a b => a.stop ≤ b.start :=
    (ordered_foldl_without (List.pairwise_singleton _ iv)).filter _
  refine tidy_sorted ?_ ?_
  · intro p hp
    rcases List.mem_append.1 hp with hp | hp
    · exact h.minutes p hp
    · exact (mem_fill hp).1
  · refine List.pairwise_append.2 ⟨h.pairwise_apart, hfill.imp fun hab => Or.inl hab, ?_⟩
    intro e he p hp
    exact ((mem_fill hp).2.2 e he).symm

/-- **Laid under, an interval speaks for the minutes nobody spoke for.** -/
theorem labelAt_layUnder {list : Timeline} (h : list.Tidy) (iv : Interval) (minute : Nat) :
    (list.layUnder iv).labelAt minute =
      (list.labelAt minute).or (if iv.contains minute then some iv.label else none) := by
  ext label
  rw [labelAt_eq_some_iff (tidy_layUnder h iv).pairwise_apart, Option.or_eq_some_iff]
  refine ⟨?_, ?_⟩
  · intro hgiven
    obtain ⟨p, hp, hpm, hl⟩ := hgiven
    rcases mem_layUnder.1 hp with hp | hp
    · exact Or.inl ((labelAt_eq_some_iff h.pairwise_apart).2 ⟨p, hp, hpm, hl⟩)
    · obtain ⟨hm, hout⟩ := exists_mem_fill_contains.1 ⟨p, hp, hpm⟩
      refine Or.inr ⟨labelAt_eq_none_iff.2 hout, ?_⟩
      rw [if_pos hm, ← hl, (mem_fill hp).2.1]
  · intro hgiven
    rcases hgiven with hold | ⟨hnone, hnew⟩
    · obtain ⟨p, hp, hpm, hl⟩ := (labelAt_eq_some_iff h.pairwise_apart).1 hold
      exact ⟨p, mem_layUnder.2 (Or.inl hp), hpm, hl⟩
    · split at hnew
      · rename_i hm
        obtain ⟨p, hp, hpm⟩ := exists_mem_fill_contains.2 ⟨hm, labelAt_eq_none_iff.1 hnone⟩
        refine ⟨p, mem_layUnder.2 (Or.inr hp), hpm, ?_⟩
        rw [(mem_fill hp).2.1, Option.some.inj hnew]
      · exact absurd hnew (by simp)

/-! ## Several intervals, one after the other -/

theorem tidy_foldl_layOver {list : Timeline} (h : list.Tidy) (new : List Interval) :
    (new.foldl layOver list).Tidy := by
  induction new generalizing list with
  | nil => exact h
  | cons iv rest ih => exact ih (tidy_layOver h iv)

theorem tidy_foldl_layUnder {list : Timeline} (h : list.Tidy) (new : List Interval) :
    (new.foldl layUnder list).Tidy := by
  induction new generalizing list with
  | nil => exact h
  | cons iv rest ih => exact ih (tidy_layUnder h iv)

/-- Of the intervals laid over a timeline the last one that has a minute speaks for it. -/
theorem labelAt_foldl_layOver {list : Timeline} (h : list.Tidy) (new : List Interval)
    (minute : Nat) :
    (new.foldl layOver list).labelAt minute =
      (labelAt new.reverse minute).or (list.labelAt minute) := by
  induction new generalizing list with
  | nil => rfl
  | cons iv rest ih =>
      rw [List.foldl_cons, ih (tidy_layOver h iv), labelAt_layOver h]
      rw [List.reverse_cons, labelAt_append, Option.or_assoc]
      congr 1
      rw [labelAt_cons]
      split <;> rfl

/-- Of the intervals laid under a timeline the first one that has a minute speaks for it. -/
theorem labelAt_foldl_layUnder {list : Timeline} (h : list.Tidy) (new : List Interval)
    (minute : Nat) :
    (new.foldl layUnder list).labelAt minute =
      (list.labelAt minute).or (labelAt new minute) := by
  induction new generalizing list with
  | nil => exact Option.or_none.symm
  | cons iv rest ih =>
      rw [List.foldl_cons, ih (tidy_layUnder h iv), labelAt_layUnder h]
      rw [Option.or_assoc, labelAt_cons]
      congr 1
      split <;> rfl

end OpeningHours.Timeline
