import OpeningHours.Proofs.Timeline
import OpeningHours.Timetable.Basic
import Mathlib.Order.Lattice

/-!
# Segments trace what is in force

`Traces f a segments b` says that the segments lie end to end from `a` to `b` and that each of
them says, over the whole of it, what `f` says. Segments that trace a function leave nothing
of it out: a point between `a` and `b` lies in one of them, and what holds there can be read
off that one.

Joining segments that say the same keeps the trace, and so does putting one list of segments
after another. From the intervals of a tidy timeline it then follows that the segments of a
day trace what is in force from each minute on.
-/

namespace OpeningHours

namespace Segment

variable {τ : Type} [LinearOrder τ]

/-- What a segment says of all its time. -/
def standing (g : Segment τ) : Standing := ⟨g.status, g.comment?⟩

/-- Segments end to end from one point to another, each saying throughout what `f` says. -/
inductive Traces (f : τ → Standing) : τ → List (Segment τ) → τ → Prop where
  | nil {a : τ} : Traces f a [] a
  | cons {a b : τ} {g : Segment τ} {rest : List (Segment τ)} :
      g.start = a → g.start < g.stop →
      (∀ x, g.start ≤ x → x < g.stop → f x = g.standing) →
      Traces f g.stop rest b → Traces f a (g :: rest) b

namespace Traces

variable {f : τ → Standing} {a b c x : τ} {segments later : List (Segment τ)}

theorem le (h : Traces f a segments b) : a ≤ b := by
  induction h with
  | nil => exact le_refl _
  | cons hstart hlt _ _ ih => exact hstart ▸ le_of_lt (lt_of_lt_of_le hlt ih)

theorem append (h : Traces f a segments b) (h' : Traces f b later c) :
    Traces f a (segments ++ later) c := by
  induction h with
  | nil => exact h'
  | cons hstart hlt hsaid _ ih => exact .cons hstart hlt hsaid (ih h')

/-- A trace can be taken apart wherever its list can. -/
theorem of_append (h : Traces f a (segments ++ later) c) :
    ∃ m, Traces f a segments m ∧ Traces f m later c := by
  induction segments generalizing a with
  | nil => exact ⟨a, .nil, h⟩
  | cons g rest ih =>
      cases h with
      | cons hstart hlt hsaid hrest =>
          obtain ⟨m, hm, hlater⟩ := ih hrest
          exact ⟨m, .cons hstart hlt hsaid hm, hlater⟩

/-- A segment of a trace lies between its ends and says what holds there. -/
theorem of_mem (h : Traces f a segments b) {g : Segment τ} (hg : g ∈ segments) :
    a ≤ g.start ∧ g.start < g.stop ∧ g.stop ≤ b ∧
      ∀ x, g.start ≤ x → x < g.stop → f x = g.standing := by
  induction h with
  | nil => exact absurd hg List.not_mem_nil
  | @cons a b head rest hstart hlt hsaid hrest ih =>
      rcases List.mem_cons.1 hg with rfl | hg
      · exact ⟨le_of_eq hstart.symm, hlt, hrest.le, hsaid⟩
      · obtain ⟨hle, hrest⟩ := ih hg
        exact ⟨hstart ▸ le_trans (le_of_lt hlt) hle, hrest⟩

/-- Every point of a trace lies in one of its segments. -/
theorem exists_mem (h : Traces f a segments b) (ha : a ≤ x) (hb : x < b) :
    ∃ g ∈ segments, g.start ≤ x ∧ x < g.stop := by
  induction h with
  | nil => exact absurd hb (not_lt_of_ge ha)
  | @cons a b g rest hstart _ _ _ ih =>
      rcases lt_or_ge x g.stop with hlt | hge
      · exact ⟨g, List.mem_cons_self, hstart ▸ ha, hlt⟩
      · obtain ⟨g', hg', hx⟩ := ih hge hb
        exact ⟨g', List.mem_cons_of_mem g hg', hx⟩

/-- Joining the segments that say the same keeps the trace. -/
theorem coalesce (h : Traces f a segments b) : Traces f a (Segment.coalesce segments) b := by
  induction h with
  | nil => exact .nil
  | @cons a b g rest hstart hlt hsaid _ ih =>
      rw [Segment.coalesce]
      cases hjoined : Segment.coalesce rest with
      | nil =>
          rw [hjoined] at ih
          exact .cons hstart hlt hsaid ih
      | cons next later =>
          rw [hjoined] at ih
          dsimp only
          split
          · rename_i hcont
            simp only [continues, Bool.and_eq_true, beq_iff_eq] at hcont
            obtain ⟨⟨_, hstatus⟩, hcomment⟩ := hcont
            cases ih with
            | cons hmeet hlt' hsaid' hlater =>
                -- past its old stop the segment says what the next one did
                refine .cons hstart (lt_trans hlt (hmeet ▸ hlt')) ?_ hlater
                intro x hx hx'
                rcases lt_or_ge x g.stop with hbefore | hafter
                · exact hsaid x hx hbefore
                · rw [hsaid' x (hmeet ▸ hafter) hx']
                  exact Standing.ext hstatus.symm hcomment.symm
          · exact .cons hstart hlt hsaid ih

end Traces

end Segment

/-! ## The segments of a day -/

namespace Timeline

open Segment

variable {f : Nat → Standing} {list : Timeline}

theorem traces_gap {start stop : Nat} (h : start ≤ stop)
    (hf : ∀ x, start ≤ x → x < stop → f x = .closed) : Traces f start (gap start stop) stop := by
  unfold gap
  split
  · rename_i hlt
    exact .cons rfl hlt hf .nil
  · rw [Nat.le_antisymm h (by omega)]
    exact .nil

theorem traces_segmentOf {iv : Interval}
    (hf : ∀ x, iv.contains x = true → f x = .ofInterval? (some iv)) :
    Traces f iv.start (segmentOf iv) iv.stop := by
  unfold segmentOf
  split
  · rename_i heq
    rw [Interval.isEmpty, beq_iff_eq] at heq
    rw [heq]
    exact .nil
  · rename_i hne
    refine .cons rfl (Interval.isEmpty_eq_false_iff.1 (Bool.not_eq_true _ ▸ hne)) ?_ .nil
    intro x hx hx'
    exact hf x (Interval.contains_iff.2 ⟨hx, hx'⟩)

/-- From a minute that no interval starts before, the pieces trace what is in force. -/
theorem traces_pieces (h : list.Tidy) {minute : Nat} (hm : minute ≤ minutesPerDay)
    (hfirst : ∀ iv ∈ list, minute ≤ iv.start)
    (hf : ∀ x, minute ≤ x → x < minutesPerDay → f x = .ofInterval? (list.covering? x)) :
    Traces f minute (list.pieces minute) minutesPerDay := by
  induction list generalizing minute with
  | nil => exact traces_gap hm hf
  | cons iv rest ih =>
      have hlt : iv.start < iv.stop := h.minutes iv List.mem_cons_self
      have hday : iv.stop ≤ minutesPerDay := iv.stop_le_day
      have hstart : minute ≤ iv.start := hfirst iv List.mem_cons_self
      obtain ⟨hhead, hordered⟩ := List.pairwise_cons.1 h.ordered
      have hrest : Tidy rest :=
        ⟨fun a ha => h.minutes a (List.mem_cons_of_mem iv ha), hordered⟩
      have hcover : ∀ x, covering? (iv :: rest) x =
          if iv.contains x then some iv else covering? rest x := by
        intro x
        unfold covering?
        rw [List.find?_cons]
        cases iv.contains x <;> rfl
      rw [pieces, Nat.max_eq_right (by omega)]
      refine Traces.append (Traces.append (traces_gap hstart ?_) (traces_segmentOf ?_)) ?_
      · -- before the first interval nothing is in force
        intro x hx hx'
        have hnone : covering? (iv :: rest) x = none := by
          unfold covering?
          rw [List.find?_eq_none]
          intro a ha
          rw [Interval.contains_iff]
          have := hfirst a ha
          rcases List.mem_cons.1 ha with rfl | ha
          · omega
          · have := hhead a ha
            omega
        rw [hf x hx (by omega), hnone]
        rfl
      · intro x hx
        have hbounds := Interval.contains_iff.1 hx
        rw [hf x (by omega) (by omega), hcover, if_pos hx]
      · refine ih hrest hday hhead ?_
        intro x hx hx'
        have hout : iv.contains x ≠ true := by
          rw [Ne, Interval.contains_iff]
          omega
        rw [hf x (by omega) hx', hcover, if_neg hout]

/-- The segments of a day trace what is in force from each minute on. -/
theorem traces_segments (h : list.Tidy) :
    Traces (fun minute => .ofInterval? (list.covering? minute)) 0 list.segments minutesPerDay :=
  (traces_pieces h (Nat.zero_le _) (fun _ _ => Nat.zero_le _) fun _ _ _ => rfl).coalesce

end Timeline

end OpeningHours
