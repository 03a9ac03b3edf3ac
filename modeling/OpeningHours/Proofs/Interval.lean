import OpeningHours.Timeline.Interval

/-!
# What is left of an interval

Taking one interval out of another goes by five cases of how their closed spans lie.
On an interval that has minutes the five come to one: what lies before the other
interval and what lies after it, each if there is any of it. An interval without
minutes is left as it is or not at all. All that is needed of `minus` later is read
off these two forms.
-/

namespace OpeningHours.Interval

/-- There is an interval with the given ends exactly when they are the ends of one. -/
theorem toOption_new?_eq_some_iff {iv : Interval} {start stop : Nat} {label : Label} :
    (new? start stop label).toOption = some iv ↔
      iv.start = start ∧ iv.stop = stop ∧ iv.label = label := by
  have h₁ := iv.start_le_stop
  have h₂ := iv.stop_le_day
  have h₃ := iv.start_lt_day
  unfold new?
  refine ⟨?_, ?_⟩
  · intro h
    split at h
    · split at h
      · split at h
        · cases h
          exact ⟨rfl, rfl, rfl⟩
        · cases h
      · cases h
    · cases h
  · intro hgiven
    obtain ⟨hs, he, hl⟩ := hgiven
    rw [dif_pos (by omega), dif_pos (by omega), dif_pos (by omega)]
    exact congrArg some (Interval.ext hs.symm he.symm hl.symm)

theorem piece?_eq_some_iff {iv p : Interval} {start stop : Nat} :
    iv.piece? start stop = some p ↔
      start < stop ∧ p.start = start ∧ p.stop = stop ∧ p.label = iv.label := by
  unfold piece?
  have hp := p.stop_le_day
  split
  · rename_i h
    rw [Option.some.injEq, Interval.ext_iff]
    refine ⟨?_, ?_⟩
    · intro hgiven
      obtain ⟨rfl, rfl, hl⟩ := hgiven
      exact ⟨h.1, rfl, rfl, hl.symm⟩
    · intro hgiven
      obtain ⟨_, rfl, rfl, hl⟩ := hgiven
      exact ⟨rfl, rfl, hl.symm⟩
  · simp only [reduceCtorEq, false_iff]
    omega

theorem piece?_eq_none {iv : Interval} {start stop : Nat} (h : stop ≤ start) :
    iv.piece? start stop = none := by
  unfold piece?
  rw [dif_neg (by omega)]

theorem piece?_self {iv : Interval} (h : iv.start < iv.stop) :
    iv.piece? iv.start iv.stop = some iv :=
  piece?_eq_some_iff.2 ⟨h, rfl, rfl, rfl⟩

/-- What each placement says of the ends. -/
theorem placement_spec (a b : Interval) :
    match a.placement b with
    | .apart => b.stop < a.start ∨ a.stop < b.start
    | .within => b.start ≤ a.start ∧ a.stop ≤ b.stop
    | .around => a.start ≤ b.start ∧ b.stop ≤ a.stop ∧ (a.start < b.start ∨ b.stop < a.stop)
    | .startsIn => b.start < a.start ∧ a.start ≤ b.stop ∧ b.stop < a.stop
    | .stopsIn => a.start < b.start ∧ b.start ≤ a.stop ∧ a.stop < b.stop := by
  have ha := a.start_le_stop
  have hb := b.start_le_stop
  unfold placement
  -- the tests come one after the other, each with those before it refused
  simp only [containsClosed, Bool.and_eq_true, decide_eq_true_eq]
  by_cases hapart : b.stop < a.start ∨ a.stop < b.start
  · rw [if_pos hapart]
    exact hapart
  rw [if_neg hapart]
  by_cases hwithin : (b.start ≤ a.start ∧ a.start ≤ b.stop) ∧ b.start ≤ a.stop ∧ a.stop ≤ b.stop
  · rw [if_pos hwithin]
    exact ⟨hwithin.1.1, hwithin.2.2⟩
  rw [if_neg hwithin]
  by_cases haround : (a.start ≤ b.start ∧ b.start ≤ a.stop) ∧ a.start ≤ b.stop ∧ b.stop ≤ a.stop
  · rw [if_pos haround]
    exact ⟨haround.1.1, haround.2.2, by omega⟩
  rw [if_neg haround]
  by_cases hstarts : b.start ≤ a.start ∧ a.start ≤ b.stop
  · rw [if_pos hstarts]
    exact ⟨by omega, hstarts.2, by omega⟩
  · rw [if_neg hstarts]
    exact ⟨by omega, by omega, by omega⟩

/-- An interval with minutes is left with what lies before the other and what lies after it. -/
theorem minus_eq {a : Interval} (h : a.start < a.stop) (b : Interval) :
    a.minus b = (a.piece? a.start (min a.stop b.start)).toList ++
      (a.piece? (max a.start b.stop) a.stop).toList := by
  have hb := b.start_le_stop
  have hspec := placement_spec a b
  unfold minus
  cases hp : a.placement b with
  | apart =>
    rw [hp] at hspec
    dsimp only at hspec ⊢
    rcases hspec with hlt | hlt
    · rw [piece?_eq_none (by omega), Nat.max_eq_left (by omega), piece?_self h]
      rfl
    · rw [Nat.min_eq_left (by omega), piece?_self h, piece?_eq_none (by omega)]
      rfl
  | within =>
    rw [hp] at hspec
    dsimp only at hspec ⊢
    rw [piece?_eq_none (by omega), piece?_eq_none (by omega)]
    rfl
  | around =>
    rw [hp] at hspec
    dsimp only at hspec ⊢
    rw [Nat.min_eq_right (by omega), Nat.max_eq_right (by omega)]
  | startsIn =>
    rw [hp] at hspec
    dsimp only at hspec ⊢
    rw [piece?_eq_none (show min a.stop b.start ≤ a.start by omega), Nat.max_eq_right (by omega)]
    rfl
  | stopsIn =>
    rw [hp] at hspec
    dsimp only at hspec ⊢
    rw [piece?_eq_none (show a.stop ≤ max a.start b.stop by omega), Nat.min_eq_right (by omega)]
    exact (List.append_nil _).symm

/-- An interval without minutes is left as it is, or not at all. -/
theorem minus_of_no_minute {a : Interval} (h : a.start = a.stop) (b : Interval) :
    a.minus b = if b.stop < a.start ∨ a.stop < b.start then [a] else [] := by
  have hb := b.start_le_stop
  have hspec := placement_spec a b
  unfold minus
  cases hp : a.placement b <;> rw [hp] at hspec <;> dsimp only at hspec ⊢
  case apart => rw [if_pos hspec]
  case within => rw [if_neg (by omega)]
  all_goals omega

/-! ## What the pieces have in common -/

variable {a b p : Interval} {minute : Nat}

theorem mem_minus_iff (h : a.start < a.stop) :
    p ∈ a.minus b ↔ p.start < p.stop ∧ p.label = a.label ∧
      (p.start = a.start ∧ p.stop = min a.stop b.start ∨
        p.start = max a.start b.stop ∧ p.stop = a.stop) := by
  rw [minus_eq h, List.mem_append, Option.mem_toList, Option.mem_toList]
  rw [piece?_eq_some_iff, piece?_eq_some_iff]
  refine ⟨?_, ?_⟩
  · intro hgiven
    rcases hgiven with ⟨hlt, hs, he, hl⟩ | ⟨hlt, hs, he, hl⟩
    · exact ⟨by omega, hl, Or.inl ⟨hs, he⟩⟩
    · exact ⟨by omega, hl, Or.inr ⟨hs, he⟩⟩
  · intro hgiven
    rcases hgiven with ⟨hlt, hl, ⟨hs, he⟩ | ⟨hs, he⟩⟩
    · exact Or.inl ⟨by omega, hs, he, hl⟩
    · exact Or.inr ⟨by omega, hs, he, hl⟩

/-- A piece keeps the label and lies inside what it is a piece of, beside what was taken out. -/
theorem bounds_of_mem_minus (h : p ∈ a.minus b) :
    p.label = a.label ∧ a.start ≤ p.start ∧ p.stop ≤ a.stop ∧
      (p.stop ≤ b.start ∨ b.stop ≤ p.start) := by
  have ha := a.start_le_stop
  rcases Nat.eq_or_lt_of_le ha with heq | hlt
  · rw [minus_of_no_minute heq] at h
    split at h
    · rw [List.mem_singleton] at h
      subst h
      exact ⟨rfl, Nat.le_refl _, Nat.le_refl _, by omega⟩
    · exact absurd h List.not_mem_nil
  · obtain ⟨_, hl, hcase⟩ := (mem_minus_iff hlt).1 h
    exact ⟨hl, by omega, by omega, by omega⟩

theorem lt_minutesPerDay_of_contains (h : a.contains minute = true) : minute < minutesPerDay :=
  Nat.lt_of_lt_of_le (contains_iff.1 h).2 a.stop_le_day

theorem lt_of_mem_minus (ha : a.start < a.stop) (h : p ∈ a.minus b) : p.start < p.stop :=
  ((mem_minus_iff ha).1 h).1

/-- The pieces have the minutes of the interval that the other one does not have. -/
theorem exists_mem_minus_contains :
    (∃ p ∈ a.minus b, p.contains minute = true) ↔
      a.contains minute = true ∧ b.contains minute = false := by
  rw [← Bool.not_eq_true]
  simp only [contains_iff]
  refine ⟨?_, ?_⟩
  · intro hgiven
    obtain ⟨p, hp, hm⟩ := hgiven
    have hbounds := bounds_of_mem_minus hp
    omega
  · intro hgiven
    obtain ⟨hm, hb⟩ := hgiven
    have ha : a.start < a.stop := by omega
    have hday := a.stop_le_day
    by_cases hlt : minute < b.start
    · refine ⟨⟨a.start, min a.stop b.start, a.label, by omega, by omega, by omega⟩, ?_, ?_⟩
      · exact (mem_minus_iff ha).2 ⟨by simp only; omega, rfl, Or.inl ⟨rfl, rfl⟩⟩
      · simp only
        omega
    · refine ⟨⟨max a.start b.stop, a.stop, a.label, by omega, by omega, by omega⟩, ?_, ?_⟩
      · exact (mem_minus_iff ha).2 ⟨by simp only; omega, rfl, Or.inr ⟨rfl, rfl⟩⟩
      · simp only
        omega

theorem pairwise_minus : (a.minus b).Pairwise fun p q => p.stop ≤ q.start := by
  rcases Nat.eq_or_lt_of_le a.start_le_stop with heq | hlt
  · rw [minus_of_no_minute heq]
    split
    · exact List.pairwise_singleton _ _
    · exact List.Pairwise.nil
  · rw [minus_eq hlt, List.pairwise_append]
    refine ⟨?_, ?_, ?_⟩
    · cases a.piece? a.start (min a.stop b.start) <;> simp
    · cases a.piece? (max a.start b.stop) a.stop <;> simp
    · intro p hp q hq
      obtain ⟨_, _, hp, _⟩ := piece?_eq_some_iff.1 (Option.mem_toList.1 hp)
      obtain ⟨_, hq, _, _⟩ := piece?_eq_some_iff.1 (Option.mem_toList.1 hq)
      have hb := b.start_le_stop
      omega

end OpeningHours.Interval
