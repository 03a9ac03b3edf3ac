import OpeningHours.Proofs.DayLife
import OpeningHours.Proofs.Partition

/-!
# The segments of a day are its canonical partition

The segments of a day are the pieces of its timeline, the intervals and the gaps between them, and
pieces that say the same are joined. Of how the intervals came to be there nothing is left in them:
the fragments of one rule that lie side by side become one segment again, and an interval that is
closed without a comment becomes one with the gaps around it.

All of this is in the trace. The segments trace what is in force from each minute on, they are
joined, and a function has one joined trace. So it is enough that the timeline of the day is tidy,
which it is after whatever was done to the day.
-/

namespace OpeningHours

namespace Segment.Traces

variable {τ : Type} [LinearOrder τ] {f : τ → Standing} {a b : τ} {segments : List (Segment τ)}

/-- In a joined trace each segment stops where the next one starts, and says something else. -/
theorem isChain_joined (h : Traces f a segments b)
    (hjoined : segments.IsChain fun g g' => g.stop = g'.start → g.standing ≠ g'.standing) :
    segments.IsChain fun g g' => g.stop = g'.start ∧ g.standing ≠ g'.standing := by
  rw [List.isChain_iff_forall_rel_of_append_cons_cons]
  intro g g' before after hsplit
  have hmeet : g.stop = g'.start :=
    List.isChain_iff_forall_rel_of_append_cons_cons.1 h.isChain hsplit
  exact ⟨hmeet, List.isChain_iff_forall_rel_of_append_cons_cons.1 hjoined hsplit hmeet⟩

end Segment.Traces

namespace DayPlan

open Segment

variable {day : DayPlan}

/-- What holds from a minute of a day on. -/
def standingFrom (day : DayPlan) (minute : Nat) : Standing := .ofInterval? (day.inForce? minute)

theorem traces_segments (h : day.Tidy) :
    Traces day.standingFrom 0 day.segments minutesPerDay :=
  Timeline.traces_segments h.intervals

theorem isChain_segments (day : DayPlan) :
    day.segments.IsChain fun g g' => g.stop = g'.start → g.standing ≠ g'.standing :=
  isChain_standing_coalesce _

/--
**The segments of a day are its canonical partition.**

After any run of operations on an empty day, the segments start at minute 0 and stop at the end of
the day. Each has minutes, stops where the next one starts and says something else than the next
one. Every minute of the day lies in exactly one of them, and that one says what the interval in
force from the minute on says, or is closed without a comment where there is none. No other list of
segments does all this.
-/
theorem segments_partition (d : Date) (done : List Operation) :
    let day := done.foldl perform { date := d }
    day.segments.head?.map Segment.start = some 0 ∧
      day.segments.getLast?.map Segment.stop = some minutesPerDay ∧
      (∀ g ∈ day.segments, g.start < g.stop) ∧
      day.segments.IsChain (fun g g' => g.stop = g'.start ∧
        ¬(g.status = g'.status ∧ g.comment? = g'.comment?)) ∧
      (∀ minute < minutesPerDay, ∃ g ∈ day.segments, (g.start ≤ minute ∧ minute < g.stop) ∧
        (∀ g' ∈ day.segments, g'.start ≤ minute → minute < g'.stop → g' = g) ∧
        (∀ iv, day.inForce? minute = some iv →
          g.status = iv.label.status ∧ g.comment? = iv.label.comment?) ∧
        (day.inForce? minute = none → g.status = .closed ∧ g.comment? = none)) ∧
      ∀ segments, Traces day.standingFrom 0 segments minutesPerDay →
        segments.IsChain (fun g g' => g.standing ≠ g'.standing) → segments = day.segments := by
  intro day
  have htrace := traces_segments (tidy_foldl_perform (tidy_empty d) done)
  obtain ⟨hhead, hlast⟩ := htrace.ends (by decide)
  refine ⟨hhead, hlast, fun g hg => (htrace.of_mem hg).2.1, ?_, ?_, ?_⟩
  · refine (htrace.isChain_joined day.isChain_segments).imp fun g g' hboth => ?_
    exact ⟨hboth.1, fun hsame => hboth.2 (Standing.ext hsame.1 hsame.2)⟩
  · intro minute hminute
    obtain ⟨g, hg, hstart, hstop⟩ := htrace.exists_mem (Nat.zero_le minute) hminute
    have hsaid : day.standingFrom minute = g.standing :=
      (htrace.of_mem hg).2.2.2 minute hstart hstop
    refine ⟨g, hg, ⟨hstart, hstop⟩, ?_, ?_, ?_⟩
    · intro g' hg' hstart' hstop'
      exact htrace.eq_of_mem hg' hg ⟨hstart', hstop'⟩ ⟨hstart, hstop⟩
    · intro iv hiv
      rw [standingFrom, hiv] at hsaid
      exact ⟨congrArg Standing.status hsaid.symm, congrArg Standing.comment? hsaid.symm⟩
    · intro hnone
      rw [standingFrom, hnone] at hsaid
      exact ⟨congrArg Standing.status hsaid.symm, congrArg Standing.comment? hsaid.symm⟩
  · intro segments hother hdiffer
    exact hother.unique htrace (hdiffer.imp fun _ _ hne _ => hne) day.isChain_segments

/-- Closed from 03:00 to 04:00, without a comment. -/
def quietHour : Operation :=
  .receive [⟨180, 240, ⟨.closed, none, false, some ⟨"quiet"⟩⟩, by decide, by decide, by decide⟩]

/--
With the night line and the quiet hour laid over it, the late opening has five intervals. The two
pieces of the unknown time are one segment, and the quiet hour goes up in the gap after it.
-/
theorem segments_partition_quietHour :
    let day := [lateOpening, nightLine, quietHour, .settle].foldl perform
      { date := ⟨738344, by decide, by decide⟩ }
    day.intervals.map Interval.span = [(0, 60), (60, 90), (90, 180), (180, 240), (1320, 1440)] ∧
      day.segments.map (fun g => (g.start, g.stop)) = [(0, 60), (60, 180), (180, 1320), (1320, 1440)] ∧
      ∃ g ∈ day.segments, (g.start ≤ 200 ∧ 200 < g.stop) ∧ g.status = .closed ∧ g.comment? = none := by
  intro day
  obtain ⟨_, _, _, _, hminute, _⟩ := segments_partition ⟨738344, by decide, by decide⟩
    [lateOpening, nightLine, quietHour, .settle]
  obtain ⟨g, hg, hbounds, _, hsome, _⟩ := hminute 200 (by decide)
  refine ⟨by decide +kernel, by decide +kernel, g, hg, hbounds, ?_⟩
  refine hsome ⟨180, 240, ⟨.closed, none, false, some ⟨"quiet"⟩⟩, by decide, by decide, by decide⟩ ?_
  decide +kernel

end DayPlan

end OpeningHours
