import OpeningHours.Proofs.Interval

/-!
# Two intervals that touch and say the same are one

The closed spans of two intervals meet when the later start is not after the earlier stop. Then no
minute is left out between the two, so their minutes taken together are those from the earlier
start to the later stop. These are the ends of the joined interval, in whichever of the five ways
the two are placed: it is one of them as it stands, or the first with its start or its stop moved.

Told by `min` and `max` the ends do not depend on which of the two comes first, and a moved end is
always the end of an interval. What does depend on it is whose rule the joined interval names.
-/

namespace OpeningHours.Interval

variable {a b iv joined : Interval} {start stop minute : Nat}

theorem agrees_iff :
    a.agrees b = true ↔
      a.label.status = b.label.status ∧ a.label.comment? = b.label.comment? := by
  simp [agrees]

/-- Two closed spans meet where the later start is not after the earlier stop. -/
theorem exists_containsClosed_iff :
    (∃ minute, a.containsClosed minute = true ∧ b.containsClosed minute = true) ↔
      max a.start b.start ≤ min a.stop b.stop := by
  have ha := a.start_le_stop
  have hb := b.start_le_stop
  simp only [containsClosed_iff]
  constructor
  · intro hmeet
    obtain ⟨minute, hma, hmb⟩ := hmeet
    omega
  · intro hmeet
    exact ⟨max a.start b.start, by omega, by omega⟩

theorem withSpan?_eq_some_iff :
    iv.withSpan? start stop = some joined ↔
      joined.start = start ∧ joined.stop = stop ∧ joined.label = iv.label :=
  toOption_new?_eq_some_iff

/-- When two intervals are joined, and to what. -/
theorem join?_eq_some_iff :
    a.join? b = some joined ↔
      a.agrees b = true ∧ max a.start b.start ≤ min a.stop b.stop ∧
        joined.start = min a.start b.start ∧ joined.stop = max a.stop b.stop ∧
        joined.label = if b.start ≤ a.start ∧ a.stop ≤ b.stop then b.label else a.label := by
  have ha := a.start_le_stop
  have hb := b.start_le_stop
  have hspec := placement_spec a b
  unfold join?
  by_cases hagrees : a.agrees b = true
  · rw [if_pos hagrees, and_iff_right hagrees]
    cases hp : a.placement b with
    | apart =>
      rw [hp] at hspec
      dsimp only at hspec ⊢
      simp only [reduceCtorEq, false_iff]
      omega
    | within =>
      rw [hp] at hspec
      dsimp only at hspec ⊢
      rw [if_pos hspec, and_iff_right (by omega), Nat.min_eq_right hspec.1,
        Nat.max_eq_right hspec.2, Option.some.injEq, eq_comm, Interval.ext_iff]
    | around =>
      rw [hp] at hspec
      dsimp only at hspec ⊢
      rw [if_neg (by omega), and_iff_right (by omega), Nat.min_eq_left hspec.1,
        Nat.max_eq_left hspec.2.1, Option.some.injEq, eq_comm, Interval.ext_iff]
    | startsIn =>
      rw [hp] at hspec
      dsimp only at hspec ⊢
      rw [if_neg (by omega), and_iff_right (by omega), Nat.min_eq_right (by omega),
        Nat.max_eq_left (by omega), withSpan?_eq_some_iff]
    | stopsIn =>
      rw [hp] at hspec
      dsimp only at hspec ⊢
      rw [if_neg (by omega), and_iff_right (by omega), Nat.min_eq_left (by omega),
        Nat.max_eq_right (by omega), withSpan?_eq_some_iff]
  · rw [if_neg hagrees]
    simp only [hagrees, reduceCtorEq, false_and]

theorem exists_join?_iff :
    (∃ joined, a.join? b = some joined) ↔
      a.agrees b = true ∧ max a.start b.start ≤ min a.stop b.stop := by
  constructor
  · intro hjoined
    obtain ⟨joined, h⟩ := hjoined
    obtain ⟨hagrees, hmeet, _⟩ := join?_eq_some_iff.1 h
    exact ⟨hagrees, hmeet⟩
  · intro hgiven
    obtain ⟨hagrees, hmeet⟩ := hgiven
    -- both ends are taken over from one of the two, so an interval can have them
    have ha := a.start_lt_day
    have hb := b.stop_le_day
    have ha' := a.stop_le_day
    exact ⟨⟨min a.start b.start, max a.stop b.stop, _, by omega, by omega, by omega⟩,
      join?_eq_some_iff.2 ⟨hagrees, hmeet, rfl, rfl, rfl⟩⟩

/-- What is joined agrees with both. -/
theorem agrees_of_join? (h : a.join? b = some joined) :
    joined.agrees a = true ∧ (joined.label = a.label ∨ joined.label = b.label) := by
  obtain ⟨hagrees, _, _, _, hlabel⟩ := join?_eq_some_iff.1 h
  rw [agrees_iff] at hagrees ⊢
  rw [hlabel]
  split
  · exact ⟨⟨hagrees.1.symm, hagrees.2.symm⟩, Or.inr rfl⟩
  · exact ⟨⟨rfl, rfl⟩, Or.inl rfl⟩

/-- Spans that meet leave no minute out between them. -/
theorem contains_of_join? (h : a.join? b = some joined) (minute : Nat) :
    joined.contains minute = true ↔ a.contains minute = true ∨ b.contains minute = true := by
  obtain ⟨_, hmeet, hstart, hstop, _⟩ := join?_eq_some_iff.1 h
  simp only [contains_iff]
  omega

/-- Joined the other way round, two intervals have the same ends and say the same. -/
theorem exists_join?_of_join? (h : a.join? b = some joined) :
    ∃ other, b.join? a = some other ∧ other.span = joined.span ∧ other.agrees joined = true := by
  obtain ⟨hagrees, hmeet, hstart, hstop, _⟩ := join?_eq_some_iff.1 h
  have hagrees' : b.agrees a = true := by
    rw [agrees_iff] at hagrees ⊢
    exact ⟨hagrees.1.symm, hagrees.2.symm⟩
  obtain ⟨other, hother⟩ := exists_join?_iff.2 ⟨hagrees', by omega⟩
  obtain ⟨_, _, hstart', hstop', _⟩ := join?_eq_some_iff.1 hother
  refine ⟨other, hother, ?_, ?_⟩
  · rw [span, span, hstart, hstop, hstart', hstop', Nat.min_comm, Nat.max_comm]
  · have ha := agrees_iff.1 (agrees_of_join? h).1
    have hb := agrees_iff.1 (agrees_of_join? hother).1
    rw [agrees_iff] at hagrees ⊢
    exact ⟨hb.1.trans (hagrees.1.symm.trans ha.1.symm), hb.2.trans (hagrees.2.symm.trans ha.2.symm)⟩

/--
**Joining is the union, in either order.**

Two intervals are joined exactly when they have the same status and comment and their closed spans
meet. What they are joined to is an interval from the earlier start to the later stop, with that
status and comment and the label of one of them; it has the minutes of the two and no others.
Joined the other way round they have the same ends, status and comment. Without the minutes of the
first it is left with those that the second alone has.
-/
theorem join?_union (a b : Interval) :
    ((∃ joined, a.join? b = some joined) ↔
      (a.label.status = b.label.status ∧ a.label.comment? = b.label.comment?) ∧
        ∃ minute, a.containsClosed minute = true ∧ b.containsClosed minute = true) ∧
    ∀ joined, a.join? b = some joined →
      (joined.start ≤ joined.stop ∧ joined.stop ≤ minutesPerDay ∧ joined.start < minutesPerDay) ∧
      joined.start = min a.start b.start ∧ joined.stop = max a.stop b.stop ∧
      (joined.label.status = a.label.status ∧ joined.label.comment? = a.label.comment?) ∧
      (joined.label = a.label ∨ joined.label = b.label) ∧
      (∀ minute, joined.contains minute = true ↔
        a.contains minute = true ∨ b.contains minute = true) ∧
      (∃ other, b.join? a = some other ∧ other.span = joined.span ∧
        other.label.status = joined.label.status ∧
        other.label.comment? = joined.label.comment?) ∧
      ∀ minute, (∃ p ∈ joined.minus a, p.contains minute = true) ↔
        b.contains minute = true ∧ a.contains minute = false := by
  constructor
  · rw [exists_join?_iff, agrees_iff, exists_containsClosed_iff]
  · intro joined h
    obtain ⟨_, _, hstart, hstop, _⟩ := join?_eq_some_iff.1 h
    obtain ⟨hagrees, hlabel⟩ := agrees_of_join? h
    obtain ⟨other, hother, hspan, hsame⟩ := exists_join?_of_join? h
    refine ⟨⟨joined.start_le_stop, joined.stop_le_day, joined.start_lt_day⟩, hstart, hstop,
      agrees_iff.1 hagrees, hlabel, contains_of_join? h,
      ⟨other, hother, hspan, agrees_iff.1 hsame⟩, ?_⟩
    intro minute
    rw [exists_mem_minus_contains, contains_of_join? h]
    -- a minute that the first does not have can only come from the second
    constructor
    · intro hgiven
      obtain ⟨hminute, hout⟩ := hgiven
      rw [hout] at hminute
      exact ⟨hminute.resolve_left Bool.false_ne_true, hout⟩
    · intro hgiven
      exact ⟨Or.inr hgiven.1, hgiven.2⟩

/-- A bakery that is open from 6:15 to 12:15. -/
def bakeryMorning : Interval :=
  ⟨375, 735, { status := .opened, rule? := some ⟨"morning"⟩ }, by decide, by decide, by decide⟩

/-- Its lunch hour, by a rule that only fills gaps. -/
def bakeryLunch : Interval :=
  ⟨735, 795, { status := .opened, fallback := true, rule? := some ⟨"lunch"⟩ },
    by decide, by decide, by decide⟩

/-- The two touch at 12:15: joined either way they are open from 6:15 to 13:15, under other rules. -/
theorem join?_union_bakery :
    ∃ joined other, bakeryMorning.join? bakeryLunch = some joined ∧
      bakeryLunch.join? bakeryMorning = some other ∧
      joined.span = (375, 795) ∧ other.span = (375, 795) ∧
      joined.label.rule? ≠ other.label.rule? ∧
      ∀ minute, (∃ p ∈ joined.minus bakeryMorning, p.contains minute = true) ↔
        735 ≤ minute ∧ minute < 795 := by
  obtain ⟨hexists, hunion⟩ := join?_union bakeryMorning bakeryLunch
  obtain ⟨joined, hjoined⟩ := hexists.2 ⟨⟨rfl, rfl⟩, 735, rfl, rfl⟩
  obtain ⟨_, hstart, hstop, _, _, _, ⟨other, hother, hspan, _⟩, hleft⟩ := hunion joined hjoined
  have hends : joined.span = (375, 795) := Prod.ext hstart hstop
  refine ⟨joined, other, hjoined, hother, hends, hspan.trans hends, ?_, ?_⟩
  · -- what stands first gives its rule
    have hrule : (bakeryMorning.join? bakeryLunch).map (·.label.rule?) = some (some ⟨"morning"⟩) := rfl
    have hrule' : (bakeryLunch.join? bakeryMorning).map (·.label.rule?) = some (some ⟨"lunch"⟩) := rfl
    rw [hjoined, Option.map_some, Option.some.injEq] at hrule
    rw [hother, Option.map_some, Option.some.injEq] at hrule'
    rw [hrule, hrule']
    decide
  · intro minute
    rw [hleft minute, contains_iff, contains_eq_false_iff]
    show (735 ≤ minute ∧ minute < 795) ∧ (minute < 375 ∨ 735 ≤ minute) ↔ _
    omega

end OpeningHours.Interval
