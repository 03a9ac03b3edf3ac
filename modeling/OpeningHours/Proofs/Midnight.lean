import OpeningHours.Proofs.Machine.Days

/-!
# A span parted at midnight

A rule gives a day its minutes as spans that may run into the next day. Midnight parts such a span:
what lies before it is the day's own, what lies after it is handed on and counted from there, and
what lies past the second midnight is dropped. The two parts together have each minute of the span
once, and each of them is fit to make an interval.

A span that comes from a rule is no longer than 24 hours. Hence what it leaves for the next day
stops before the time at which it started on its own, and a span that repeats daily does not run
into itself.
-/

namespace OpeningHours

namespace MinuteSpan

variable {s p : MinuteSpan} {minute : Nat}

/-- The span has minutes, all of them in one day. -/
def IsOfDay (s : MinuteSpan) : Prop := s.start < s.stop ∧ s.stop ≤ minutesPerDay

/-- The ends of such a span are the ends of an interval. -/
theorem IsOfDay.exists_new? (h : s.IsOfDay) (label : Label) :
    ∃ iv, Interval.new? s.start s.stop label = .ok iv := by
  obtain ⟨hlt, hstop⟩ := h
  unfold minutesPerDay at hstop
  unfold Interval.new?
  rw [dif_pos (Nat.le_of_lt hlt), dif_pos hstop, dif_pos (Nat.lt_of_lt_of_le hlt hstop)]
  exact ⟨_, rfl⟩

/-- A span that is kept if it has minutes is told by its ends. -/
theorem nonempty?_eq_some_iff_ends :
    s.nonempty? = some p ↔ p.start < p.stop ∧ p.start = s.start ∧ p.stop = s.stop := by
  rw [nonempty?_eq_some_iff]
  constructor
  · intro hgiven
    obtain ⟨hlt, rfl⟩ := hgiven
    exact ⟨hlt, rfl, rfl⟩
  · intro hgiven
    obtain ⟨hlt, hstart, hstop⟩ := hgiven
    rw [hstart, hstop] at hlt
    exact ⟨hlt, MinuteSpan.ext hstart.symm hstop.symm⟩

theorem today?_eq_some_iff :
    s.today? = some p ↔ p.start < p.stop ∧ p.start = s.start ∧ p.stop = min s.stop minutesPerDay :=
  nonempty?_eq_some_iff_ends

theorem tomorrow?_eq_some_iff :
    s.tomorrow? = some p ↔ p.start < p.stop ∧ p.start = s.start - minutesPerDay ∧
      p.stop = min s.stop (2 * minutesPerDay) - minutesPerDay :=
  nonempty?_eq_some_iff_ends

theorem isOfDay_of_today? (h : s.today? = some p) : p.IsOfDay := by
  obtain ⟨hlt, _, hstop⟩ := today?_eq_some_iff.1 h
  exact ⟨hlt, by omega⟩

theorem isOfDay_of_tomorrow? (h : s.tomorrow? = some p) : p.IsOfDay := by
  obtain ⟨hlt, _, hstop⟩ := tomorrow?_eq_some_iff.1 h
  exact ⟨hlt, by omega⟩

/-- A span without minutes is not missed: it contains none. -/
theorem exists_nonempty?_contains_iff :
    (∃ p, s.nonempty? = some p ∧ p.contains minute = true) ↔ s.contains minute = true := by
  simp only [nonempty?_eq_some_iff]
  constructor
  · intro hgiven
    obtain ⟨p, ⟨_, rfl⟩, hcontains⟩ := hgiven
    exact hcontains
  · intro hcontains
    obtain ⟨hafter, hbefore⟩ := contains_iff.1 hcontains
    exact ⟨s, ⟨Nat.lt_of_le_of_lt hafter hbefore, rfl⟩, hcontains⟩

/-- The part before midnight has the minutes of the span before midnight. -/
theorem exists_today?_contains_iff :
    (∃ p, s.today? = some p ∧ p.contains minute = true) ↔
      minute < minutesPerDay ∧ s.contains minute = true := by
  unfold today?
  rw [exists_nonempty?_contains_iff, contains_iff, contains_iff]
  dsimp only
  omega

/-- The part after midnight has the minutes of the span in the day after, counted from midnight. -/
theorem exists_tomorrow?_contains_iff :
    (∃ p, s.tomorrow? = some p ∧ p.contains minute = true) ↔
      minute < minutesPerDay ∧ s.contains (minute + minutesPerDay) = true := by
  unfold tomorrow?
  rw [exists_nonempty?_contains_iff, contains_iff, contains_iff]
  dsimp only
  omega

end MinuteSpan

/-! ## Spans that come from rules -/

/-- A span of time of a rule is no longer than 24 hours. -/
theorem TimeSpan.stop_minutesOn_le (env : Setting) (d : Date) (s : TimeSpan) :
    (s.minutesOn env d).stop ≤ (s.minutesOn env d).start + minutesPerDay :=
  Nat.min_le_right _ _

theorem Rule.stop_le_of_mem_spansOn {r : Rule} {env : Setting} {d : Date} {s : MinuteSpan}
    (h : s ∈ r.spansOn env d) : s.stop ≤ s.start + minutesPerDay := by
  unfold spansOn at h
  split at h
  · obtain rfl := List.mem_singleton.1 h
    exact Nat.le_add_left _ _
  · obtain ⟨span, _, rfl⟩ := List.mem_map.1 h
    exact span.stop_minutesOn_le env d

namespace MinuteSpan

/--
**Midnight parts a span without losing a minute or doubling one.**

Whatever its ends, a span has at most one part before midnight and at most one after it; that is
also what the steps on machine numbers come to. Each part has minutes, all of one day, and an
interval can be made of it. A minute before the second midnight is in the span exactly when it is
in the part of its day, counted from the midnight of that day. And where a span of a rule that
starts on its own day has both parts, the part of the next day stops no later than the time of the
day at which the span started.
-/
theorem parted_at_midnight (s : MinuteSpan) :
    Machine.split s = .ok (s.today?, s.tomorrow?) ∧
    (∀ p, s.today? = some p ∨ s.tomorrow? = some p → p.start < p.stop ∧ p.stop ≤ minutesPerDay ∧
      ∀ label, ∃ iv, Interval.new? p.start p.stop label = .ok iv) ∧
    (∀ minute < 2 * minutesPerDay, s.contains minute = true ↔
      minute < minutesPerDay ∧ (∃ p, s.today? = some p ∧ p.contains minute = true) ∨
      minutesPerDay ≤ minute ∧
        ∃ p, s.tomorrow? = some p ∧ p.contains (minute - minutesPerDay) = true) ∧
    ∀ (r : Rule) (env : Setting) (d : Date), s ∈ r.spansOn env d → s.start < minutesPerDay →
      ∀ today tomorrow, s.today? = some today → s.tomorrow? = some tomorrow →
        tomorrow.stop ≤ today.start := by
  refine ⟨Machine.split_eq s, ?_, ?_, ?_⟩
  · intro p hp
    have hday : p.IsOfDay := by
      rcases hp with htoday | htomorrow
      · exact isOfDay_of_today? htoday
      · exact isOfDay_of_tomorrow? htomorrow
    exact ⟨hday.1, hday.2, hday.exists_new?⟩
  · intro minute hm
    rw [exists_today?_contains_iff, exists_tomorrow?_contains_iff]
    rcases Nat.lt_or_ge minute minutesPerDay with hbefore | hafter
    · simp only [hbefore, Nat.not_le.2 hbefore, true_and, false_and, or_false]
    · have hback : minute - minutesPerDay < minutesPerDay := by omega
      simp only [hafter, hback, Nat.not_lt.2 hafter, Nat.sub_add_cancel hafter, true_and, false_and,
        false_or]
  · intro r env d hs hstart today tomorrow htoday htomorrow
    obtain ⟨_, htodayStart, _⟩ := today?_eq_some_iff.1 htoday
    obtain ⟨_, _, htomorrowStop⟩ := tomorrow?_eq_some_iff.1 htomorrow
    have hlong := Rule.stop_le_of_mem_spansOn hs
    omega

end MinuteSpan

/-- The night from 22:00 to 06:00. -/
def Rule.night : Rule := { id := ⟨"night"⟩, times := [.fixed 1320 360] }

/-- The night of 4 January 2021 has a part on either side of midnight, and they do not meet. -/
theorem MinuteSpan.parted_at_midnight_night :
    ∃ today tomorrow, (⟨1320, 1800⟩ : MinuteSpan) ∈ Rule.night.spansOn {} ⟨738159, by decide, by decide⟩ ∧
      MinuteSpan.today? ⟨1320, 1800⟩ = some today ∧ MinuteSpan.tomorrow? ⟨1320, 1800⟩ = some tomorrow ∧
      tomorrow.stop ≤ today.start := by
  have hspan : (⟨1320, 1800⟩ : MinuteSpan) ∈ Rule.night.spansOn {} ⟨738159, by decide, by decide⟩ :=
    List.mem_singleton.2 rfl
  obtain ⟨_, _, _, hreturn⟩ := parted_at_midnight ⟨1320, 1800⟩
  exact ⟨_, _, hspan, rfl, rfl, hreturn _ _ _ hspan (by decide) _ _ rfl rfl⟩

end OpeningHours
