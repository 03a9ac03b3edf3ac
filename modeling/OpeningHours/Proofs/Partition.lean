import OpeningHours.Proofs.WeekSegments
import Mathlib.Data.List.Chain

/-!
# The segments of a week are its canonical partition

Three things make a list of segments the one list that a week has: it runs end to end from
Monday 00:00 to the next Monday 00:00, no two neighbours say the same, and every instant finds
in its segment what holds from it on. The first and the last are what a trace is. The second
comes of the joining, which looks at the head and at the head of the joined rest only: a joined
head keeps what it says and takes the stop of its neighbour, so to what follows it is that
neighbour.

There is no second such list: a segment has to go on for as long as what it says does.
-/

namespace OpeningHours

namespace Segment

variable {τ : Type}

theorem isChain_coalesce [DecidableEq τ] (segments : List (Segment τ)) :
    (coalesce segments).IsChain fun a b => a.continues b = false := by
  induction segments with
  | nil => exact .nil
  | cons g rest ih =>
      rw [coalesce]
      cases hjoined : coalesce rest with
      | nil => exact .singleton g
      | cons next later =>
          rw [hjoined] at ih
          dsimp only
          by_cases hcont : g.continues next = true
          · rw [if_pos hcont]
            simp only [continues, Bool.and_eq_true, beq_iff_eq] at hcont
            obtain ⟨⟨_, hstatus⟩, hcomment⟩ := hcont
            cases ih with
            | singleton => exact .singleton _
            | cons_cons hhead hlater =>
                -- the joined head says what `next` says and stops where it does
                refine .cons_cons ?_ hlater
                simpa only [continues, hstatus, hcomment] using hhead
          · rw [if_neg hcont]
            exact .cons_cons (Bool.not_eq_true _ ▸ hcont) ih

/-- Once joined, two segments of which the one stops where the other starts say different things. -/
theorem isChain_standing_coalesce [DecidableEq τ] (segments : List (Segment τ)) :
    (coalesce segments).IsChain fun a b => a.stop = b.start → a.standing ≠ b.standing := by
  refine (isChain_coalesce segments).imp fun a b hcont hmeet hsame => ?_
  simp only [standing, Standing.mk.injEq] at hsame
  simp [continues, hmeet, hsame] at hcont

namespace Traces

variable [LinearOrder τ] {f : τ → Standing} {a b x : τ} {g g' : Segment τ}
  {segments segments' rest rest' : List (Segment τ)}

theorem isChain (h : Traces f a segments b) :
    segments.IsChain fun g g' => g.stop = g'.start := by
  induction h with
  | nil => exact .nil
  | cons _ _ _ hrest ih =>
      cases hrest with
      | nil => exact .singleton _
      | cons hmeet _ _ _ => exact .cons_cons hmeet.symm ih

/-- A trace between two points starts at the one and stops at the other. -/
theorem ends (h : Traces f a segments b) (hlt : a < b) :
    segments.head?.map Segment.start = some a ∧ segments.getLast?.map Segment.stop = some b := by
  induction h with
  | nil => exact absurd hlt (lt_irrefl _)
  | @cons a b g rest hstart hg _ hrest ih =>
      refine ⟨congrArg some hstart, ?_⟩
      rcases lt_or_ge g.stop b with hmore | hdone
      · obtain ⟨hhead, hlast⟩ := ih hmore
        cases rest with
        | nil => cases hhead
        | cons next later => rw [List.getLast?_cons_cons, hlast]
      · cases hrest with
        | nil => rfl
        | cons hmeet hlt' _ hlater =>
            exact absurd (lt_of_lt_of_le (hmeet ▸ hlt') hlater.le) (not_lt_of_ge hdone)

/-- No point lies in two segments of a trace. -/
theorem eq_of_mem (h : Traces f a segments b) (hg : g ∈ segments) (hg' : g' ∈ segments)
    (hx : g.start ≤ x ∧ x < g.stop) (hx' : g'.start ≤ x ∧ x < g'.stop) : g = g' := by
  induction h with
  | nil => exact absurd hg List.not_mem_nil
  | @cons a b head rest _ _ _ hlater ih =>
      -- a point before the stop of the head lies before all segments of the rest
      have hapart : ∀ next ∈ rest, x < head.stop → ¬next.start ≤ x := fun next hnext hlt =>
        not_le_of_gt (lt_of_lt_of_le hlt (hlater.of_mem hnext).1)
      rcases List.mem_cons.1 hg with rfl | hrest
      · rcases List.mem_cons.1 hg' with rfl | hrest'
        · rfl
        · exact absurd hx'.1 (hapart g' hrest' hx.2)
      · rcases List.mem_cons.1 hg' with rfl | hrest'
        · exact absurd hx.1 (hapart g hrest hx'.2)
        · exact ih hrest hrest'

/-- A segment that the next one does not continue is as long as what it says lasts. -/
theorem stop_le_of_isChain (h : Traces f a (g :: rest) b) (h' : Traces f a (g' :: rest') b)
    (hchain : (g :: rest).IsChain fun x y => x.stop = y.start → x.standing ≠ y.standing) :
    g'.stop ≤ g.stop := by
  cases h with
  | cons hstart hlt hsaid hrest =>
  cases h' with
  | cons hstart' hlt' hsaid' hrest' =>
  refine le_of_not_gt fun hlonger => ?_
  cases hrest with
  | nil => exact absurd hlonger (not_lt_of_ge hrest'.le)
  | @cons _ _ next later hmeet hnext hsaidNext _ =>
      -- the longer segment says at the start of `next` what it says at its own start
      rw [List.isChain_cons_cons] at hchain
      refine hchain.1 hmeet.symm ?_
      rw [← hsaid g.start (le_refl _) hlt, ← hsaidNext next.start (le_refl _) hnext, hmeet,
        hsaid' g.stop (hstart'.trans_le (hstart ▸ le_of_lt hlt)) hlonger, hstart, ← hstart']
      exact hsaid' g'.start (le_refl _) hlt'

/-- A function has one trace between two points in which no segment goes on like the one before. -/
theorem unique (h : Traces f a segments b) (h' : Traces f a segments' b)
    (hchain : segments.IsChain fun x y => x.stop = y.start → x.standing ≠ y.standing)
    (hchain' : segments'.IsChain fun x y => x.stop = y.start → x.standing ≠ y.standing) :
    segments = segments' := by
  induction h generalizing segments' with
  | nil =>
      cases h' with
      | nil => rfl
      | cons hstart hlt _ hrest => exact absurd hrest.le (not_le_of_gt (hstart ▸ hlt))
  | @cons a b g rest hstart hlt hsaid hrest ih =>
      cases h' with
      | nil => exact absurd hrest.le (not_le_of_gt (hstart ▸ hlt))
      | @cons _ _ g' rest' hstart' hlt' hsaid' hrest' =>
          have hstop : g.stop = g'.stop :=
            le_antisymm
              (stop_le_of_isChain (.cons hstart' hlt' hsaid' hrest')
                (.cons hstart hlt hsaid hrest) hchain')
              (stop_le_of_isChain (.cons hstart hlt hsaid hrest)
                (.cons hstart' hlt' hsaid' hrest') hchain)
          have hstanding : g.standing = g'.standing := by
            rw [← hsaid g.start (le_refl _) hlt, ← hsaid' g'.start (le_refl _) hlt', hstart, hstart']
          simp only [standing, Standing.mk.injEq] at hstanding
          have hhead : g = g' :=
            Segment.ext (hstart.trans hstart'.symm) hstop hstanding.1 hstanding.2
          have htail : rest = rest' := ih (hstop ▸ hrest') hchain.tail hchain'.tail
          rw [hhead, htail]

end Traces

end Segment

namespace Timetable

open Segment

variable {rules : List Rule} {env : Setting} {d : Date} {t : Timetable}

/--
**The segments of a week are its canonical partition.**

They start on Monday 00:00 and stop on the next Monday 00:00. Each has a length, stops where the
next one starts and says something else than the next one. Every instant of the week lies in
exactly one of them, and that one says what holds from the instant on.
-/
theorem segments_canonical (h : around rules env d = .ok t) :
    ∃ monday next : Date, d.monday? = some monday ∧ monday.weekday = .mon ∧
      next.number = monday.number + 7 ∧
      t.segments.head?.map Segment.start = some (.midnight monday) ∧
      t.segments.getLast?.map Segment.stop = some (.midnight next) ∧
      (∀ g ∈ t.segments, g.start < g.stop) ∧
      t.segments.IsChain (fun g g' => g.stop = g'.start ∧
        ¬(g.status = g'.status ∧ g.comment? = g'.comment?)) ∧
      ∀ i : Instant, i.date.monday? = some monday →
        ∃ g ∈ t.segments, g.start ≤ i ∧ i < g.stop ∧
          (∀ g' ∈ t.segments, g'.start ≤ i → i < g'.stop → g' = g) ∧
          t.standingFrom i = ⟨g.status, g.comment?⟩ := by
  have hmonday := (around_eq_ok_iff.1 h).1
  have hfirst : t.week.date 0 = t.week.first := Date.ext (Int.add_zero _)
  have htrace := traces_segments h
  have hlt : Instant.midnight (t.week.date 0) < Instant.midnight (t.week.date 7) :=
    lt_of_not_ge fun hle => by
      rw [Instant.midnight_le_iff, Date.le_iff] at hle
      simp only [Instant.midnight, Week.date] at hle
      omega
  obtain ⟨hhead, hlast⟩ := htrace.ends hlt
  refine ⟨t.week.first, t.week.date 7, hmonday, ?_, rfl, hfirst ▸ hhead, hlast, ?_, ?_, ?_⟩
  · rw [← hfirst]
    exact Week.weekday_date hmonday .mon
  · intro g hg
    exact (htrace.of_mem hg).2.1
  · rw [List.isChain_iff_forall_rel_of_append_cons_cons]
    intro g g' before after hsplit
    have hmeet : g.stop = g'.start :=
      List.isChain_iff_forall_rel_of_append_cons_cons.1 htrace.isChain hsplit
    have hcont : g.continues g' = false :=
      List.isChain_iff_forall_rel_of_append_cons_cons.1 (isChain_coalesce _) hsplit
    refine ⟨hmeet, fun hsame => ?_⟩
    simp [continues, hmeet, hsame.1, hsame.2] at hcont
  · intro i hi
    obtain ⟨hle, hlt⟩ := (Week.monday?_eq_some_iff_between hmonday).1 hi
    obtain ⟨g, hg, hstart, hstop⟩ := htrace.exists_mem hle hlt
    refine ⟨g, hg, hstart, hstop, ?_, (htrace.of_mem hg).2.2.2 i hstart hstop⟩
    intro g' hg' hstart' hstop'
    exact htrace.eq_of_mem hg' hg ⟨hstart', hstop'⟩ ⟨hstart, hstop⟩

/-- The week of 30 June 2021, where the days of June and those of July are joined to three segments. -/
theorem segments_canonical_monthStart :
    ∃ t, around [monthStart] {} lastOfJune = .ok t ∧
      t.segments.map Segment.status = [.closed, .opened, .closed] ∧
      ∃ monday : Date, monday.number = 738334 ∧
        t.segments.head?.map Segment.start = some (.midnight monday) ∧
        t.segments.IsChain (fun g g' => g.stop = g'.start ∧
          ¬(g.status = g'.status ∧ g.comment? = g'.comment?)) := by
  obtain ⟨t, ht⟩ : ∃ t, around [monthStart] {} lastOfJune = .ok t := ⟨_, rfl⟩
  obtain ⟨monday, _, hmonday, _, _, hhead, _, _, hchain, _⟩ := segments_canonical ht
  refine ⟨t, ht, ?_, monday, ?_, hhead, hchain⟩
  · cases ht
    decide +kernel
  · rw [Date.monday?_eq_some_iff] at hmonday
    exact hmonday

end Timetable

end OpeningHours
