import OpeningHours.Timeline.Basic

/-!
# Segments

A segment is a run of constant status, gaps between intervals being closed without
comment. Segments that follow on each other and say the same are one.

The ends are minutes within a day and instants within a week; nothing here depends
on which of the two they are.
-/

namespace OpeningHours

/-- A run of constant status from one point of time to another. -/
@[ext] structure Segment (τ : Type) where
  start : τ
  stop : τ
  status : Status
  comment? : Option String
  deriving DecidableEq

namespace Segment

variable {τ : Type} [DecidableEq τ]

/-- Whether one segment follows on another and says the same. -/
def continues (a b : Segment τ) : Bool :=
  a.stop == b.start && a.status == b.status && a.comment? == b.comment?

/-- Joins the segments that follow on each other and say the same. -/
def coalesce : List (Segment τ) → List (Segment τ)
  | [] => []
  | a :: rest =>
    match coalesce rest with
    | [] => [a]
    | b :: later =>
      if a.continues b then { a with stop := b.stop } :: later else a :: b :: later

end Segment

namespace Timeline

/-- A closed segment, if there are minutes between its ends. -/
def gap (start stop : Nat) : List (Segment Nat) :=
  if start < stop then [⟨start, stop, .closed, none⟩] else []

/-- The segment of an interval, if it has minutes. -/
def segmentOf (iv : Interval) : List (Segment Nat) :=
  if iv.isEmpty then [] else [⟨iv.start, iv.stop, iv.label.status, iv.label.comment?⟩]

/-- The intervals of a timeline and the gaps between them, from a minute to the end of the day. -/
def pieces (minute : Nat) : Timeline → List (Segment Nat)
  | [] => gap minute minutesPerDay
  | iv :: rest => gap minute iv.start ++ segmentOf iv ++ pieces (max minute iv.stop) rest

/-- The whole day in segments. -/
def segments (list : Timeline) : List (Segment Nat) := Segment.coalesce (list.pieces 0)

end Timeline

end OpeningHours
