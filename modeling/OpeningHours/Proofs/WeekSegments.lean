import OpeningHours.Proofs.OwnMonth
import OpeningHours.Proofs.Segment
import Mathlib.Data.List.FinRange

/-!
# The segments of a week trace what holds from each instant on

The segments of the seven days, taken from minutes to instants, lie end to end from Monday
00:00 to the next Monday 00:00. What they say at an instant is what the timetable says holds
from it on, so questions about a whole week of instants are questions about its segments.

Within a week the instants are those between the two midnights, and the segments meet at
whole minutes only.
-/

namespace OpeningHours

instance : LinearOrder Instant where
  le a b := a ≤ b
  lt a b := a < b
  le_refl a := Int.le_refl a.seconds
  le_trans _ _ _ hab hbc := Int.le_trans hab hbc
  lt_iff_le_not_ge a b := by
    simp only [Instant.le_iff, Instant.lt_iff]
    omega
  le_antisymm _ _ hab hba := Instant.eq_of_seconds_eq (Int.le_antisymm hab hba)
  le_total a b := Int.le_total a.seconds b.seconds
  toDecidableLE := inferInstance
  toDecidableEq := inferInstance
  toDecidableLT := inferInstance

theorem Instant.midnight_le_iff {d : Date} {i : Instant} : midnight d ≤ i ↔ d ≤ i.date := by
  have h := i.second_lt
  simp only [le_iff, Date.le_iff, seconds, midnight]
  omega

theorem Instant.date_le {a b : Instant} (h : a ≤ b) : a.date ≤ b.date :=
  midnight_le_iff.1 (le_trans (midnight_le_iff.2 (Int.le_refl _)) h)

/-! ## Traces, taken further -/

namespace Segment

variable {τ σ : Type} [LinearOrder τ] [LinearOrder σ] {f : τ → Standing} {g : σ → Standing}
  {a b : τ} {segments : List (Segment τ)}

/-- A trace can be taken along a map that keeps the order and what is said. -/
theorem Traces.map (φ : τ → σ) (h : Traces f a segments b)
    (hlt : ∀ x y, a ≤ x → x < y → y ≤ b → φ x < φ y)
    (hsaid : ∀ x y z, a ≤ x → y ≤ b → φ x ≤ z → z < φ y → ∃ w, x ≤ w ∧ w < y ∧ g z = f w) :
    Traces g (φ a) (segments.map fun s => ⟨φ s.start, φ s.stop, s.status, s.comment?⟩) (φ b) := by
  induction h with
  | nil => exact .nil
  | @cons a b s rest hstart hlt' hs hrest ih =>
      subst hstart
      have hstop : s.stop ≤ b := hrest.le
      refine .cons rfl (hlt _ _ (le_refl _) hlt' hstop) ?_ (ih ?_ ?_)
      · intro z hz hz'
        obtain ⟨w, hw, hw', heq⟩ := hsaid _ _ z (le_refl _) hstop hz hz'
        exact heq.trans (hs w hw hw')
      · intro x y hx
        exact hlt x y (le_trans (le_of_lt hlt') hx)
      · intro x y z hx
        exact hsaid x y z (le_trans (le_of_lt hlt') hx)

/-- Traces between places in a row make one trace. -/
theorem Traces.flatMap_finRange {n : Nat} (place : Fin (n + 1) → τ)
    {lists : Fin n → List (Segment τ)}
    (h : ∀ i : Fin n, Traces f (place i.castSucc) (lists i) (place i.succ)) :
    Traces f (place 0) ((List.finRange n).flatMap lists) (place (Fin.last n)) := by
  induction n with
  | zero => exact .nil
  | succ n ih =>
      rw [List.finRange_succ, List.flatMap_cons, List.flatMap_map]
      refine Traces.append (h 0) ?_
      exact ih (fun i => place i.succ) fun i => h i.succ

/-- Joining makes no new ends. -/
theorem ends_of_mem_coalesce {s : Segment τ} (hs : s ∈ coalesce segments) :
    (∃ s' ∈ segments, s'.start = s.start) ∧ ∃ s' ∈ segments, s'.stop = s.stop := by
  induction segments generalizing s with
  | nil => exact absurd hs List.not_mem_nil
  | cons head rest ih =>
      have hhead : head ∈ head :: rest := List.mem_cons_self
      have hlift : ∀ s, s ∈ coalesce rest → (∃ s' ∈ head :: rest, s'.start = s.start) ∧
          ∃ s' ∈ head :: rest, s'.stop = s.stop := by
        intro s hs
        obtain ⟨⟨x, hx, hxs⟩, y, hy, hys⟩ := ih hs
        exact ⟨⟨x, List.mem_cons_of_mem head hx, hxs⟩, y, List.mem_cons_of_mem head hy, hys⟩
      rw [coalesce] at hs
      cases hjoined : coalesce rest with
      | nil =>
          rw [hjoined] at hs
          obtain rfl := List.mem_singleton.1 hs
          exact ⟨⟨s, hhead, rfl⟩, s, hhead, rfl⟩
      | cons next later =>
          rw [hjoined] at hs hlift
          dsimp only at hs
          split at hs
          · -- a joined segment starts where the head does and stops where the next one does
            rcases List.mem_cons.1 hs with rfl | hs
            · exact ⟨⟨head, hhead, rfl⟩, (hlift next List.mem_cons_self).2⟩
            · exact hlift s (List.mem_cons_of_mem next hs)
          · rcases List.mem_cons.1 hs with rfl | hs
            · exact ⟨⟨s, hhead, rfl⟩, s, hhead, rfl⟩
            · exact hlift s hs

end Segment

/-! ## The instants of a week -/

namespace Week

variable {w : Week} {i : Fin 7} {minute : Nat}

theorem seconds_instant (h : minute ≤ minutesPerDay) :
    (w.instant i minute).seconds = (w.first.number + i) * 86400 + minute * 60 := by
  unfold minutesPerDay at h
  unfold instant
  split
  · simp only [Instant.seconds, date, Fin.val_castSucc]
    omega
  · rename_i hge
    unfold minutesPerDay at hge
    simp only [Instant.seconds, Instant.midnight, date, Fin.val_succ]
    omega

/-- An instant between two minutes of a day is one of that day, at a minute between them. -/
theorem between_instants {x y : Nat} (hy : y ≤ minutesPerDay) {z : Instant}
    (hx : w.instant i x ≤ z) (hz : z < w.instant i y) :
    z.date = w.date i.castSucc ∧ x ≤ z.minute ∧ z.minute < y := by
  -- from 24:00 on there is no room below `y`
  have hxy : x < minutesPerDay := by
    by_contra hge
    have hfirst : w.instant i x = w.instant i minutesPerDay := by
      unfold instant
      rw [dif_neg hge, dif_neg (Nat.lt_irrefl _)]
    rw [hfirst] at hx
    rw [Instant.le_iff, seconds_instant (Nat.le_refl _)] at hx
    rw [Instant.lt_iff, seconds_instant hy] at hz
    omega
  rw [Instant.le_iff, seconds_instant (Nat.le_of_lt hxy)] at hx
  rw [Instant.lt_iff, seconds_instant hy] at hz
  have hsecond := z.second_lt
  unfold minutesPerDay at hxy hy
  unfold Instant.seconds at hx hz
  have hday : z.date.number = w.first.number + i := by omega
  refine ⟨Date.ext hday, ?_, ?_⟩
  · unfold Instant.minute
    omega
  · unfold Instant.minute
    omega

/-- The instants of a week lie between its two midnights. -/
theorem monday?_eq_some_iff_between {d : Date} (h : d.monday? = some w.first) {x : Instant} :
    x.date.monday? = some w.first ↔
      Instant.midnight (w.date 0) ≤ x ∧ x < Instant.midnight (w.date 7) := by
  rw [← not_le, Instant.midnight_le_iff, Instant.midnight_le_iff, Date.le_iff, Date.le_iff]
  rw [Date.monday?_eq_some_iff, Date.mondayNumber] at h ⊢
  show _ ↔ w.first.number + 0 ≤ x.date.number ∧ ¬ w.first.number + 7 ≤ x.date.number
  omega

end Week

/-! ## The segments of a timetable -/

namespace Timetable

open Segment

variable {rules : List Rule} {env : Setting} {d : Date} {t : Timetable}

theorem traces_daySegments (h : around rules env d = .ok t) (i : Fin 7) :
    Traces t.standingFrom (.midnight (t.week.date i.castSucc)) (t.daySegments i)
      (.midnight (t.week.date i.succ)) := by
  have hin := Week.monday?_date (around_eq_ok_iff.1 h).1 i
  have htidy := (day_inOwnMonth h hin).tidy
  have hday := Timeline.traces_segments htidy.intervals
  have htrace := hday.map (g := t.standingFrom) (t.week.instant i) ?_ ?_
  · exact htrace
  · intro x y _ hxy hy
    rw [Instant.lt_iff, Week.seconds_instant (by omega), Week.seconds_instant hy]
    omega
  · intro x y z _ hy hx hz
    obtain ⟨hdate, hle, hlt⟩ := Week.between_instants hy hx hz
    refine ⟨z.minute, hle, hlt, ?_⟩
    unfold standingFrom
    rw [hdate]
    rfl

/-- The segments of a week trace what holds from each of its instants on. -/
theorem traces_segments (h : around rules env d = .ok t) :
    Traces t.standingFrom (.midnight (t.week.date 0)) t.segments (.midnight (t.week.date 7)) :=
  (Traces.flatMap_finRange (fun i => Instant.midnight (t.week.date i))
    (traces_daySegments h)).coalesce

theorem whole_minutes_of_mem_segments (h : around rules env d = .ok t) {g : Segment Instant}
    (hg : g ∈ t.segments) : g.start.seconds % 60 = 0 ∧ g.stop.seconds % 60 = 0 := by
  have hwhole : ∀ s ∈ (List.finRange 7).flatMap t.daySegments,
      s.start.seconds % 60 = 0 ∧ s.stop.seconds % 60 = 0 := by
    intro s hs
    obtain ⟨i, _, hs⟩ := List.mem_flatMap.1 hs
    obtain ⟨s', hs', rfl⟩ := List.mem_map.1 hs
    have hin := Week.monday?_date (around_eq_ok_iff.1 h).1 i
    have htidy := (day_inOwnMonth h hin).tidy
    obtain ⟨_, hlt, hstop, _⟩ := (Timeline.traces_segments htidy.intervals).of_mem hs'
    dsimp only
    rw [Week.seconds_instant (by omega), Week.seconds_instant hstop]
    omega
  obtain ⟨⟨s, hs, hstart⟩, s', hs', hstop⟩ := ends_of_mem_coalesce hg
  rw [← hstart, ← hstop]
  exact ⟨(hwhole s hs).1, (hwhole s' hs').2⟩

end Timetable

end OpeningHours
