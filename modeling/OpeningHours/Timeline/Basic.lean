import OpeningHours.Timeline.Interval

/-!
# Timelines

A timeline is the list of intervals of a day, in the order of their starts. New
intervals are laid over what is there, which is cut where they overlap, or under it,
into the gaps alone.

The sort keeps intervals with equal ends in the order they had. It inserts one
interval at a time, so that each fact about it is an induction on the list.
-/

namespace OpeningHours

/-- The intervals of a day. -/
abbrev Timeline := List Interval

namespace Timeline

/-- Whether an interval comes before another, or has the same ends. -/
def precedes (a b : Interval) : Bool :=
  decide (a.start < b.start) || (a.start == b.start && decide (a.stop ≤ b.stop))

/-- Puts an interval into a sorted timeline, before those it precedes. -/
def place (iv : Interval) : Timeline → Timeline
  | [] => [iv]
  | head :: rest => if precedes iv head then iv :: head :: rest else head :: place iv rest

/-- The intervals by start and then by stop. -/
def sorted : Timeline → Timeline
  | [] => []
  | iv :: rest => place iv (sorted rest)

/-- What is left of a list of intervals without the minutes of one. -/
def without (list : Timeline) (iv : Interval) : Timeline := list.flatMap (·.minus iv)

/-- Lays an interval over a timeline: it wins where it overlaps. -/
def layOver (list : Timeline) (iv : Interval) : Timeline :=
  sorted (list.without iv ++ if iv.isEmpty then [] else [iv])

/-- Lays an interval under a timeline: it fills the gaps and nothing else. -/
def layUnder (list : Timeline) (iv : Interval) : Timeline :=
  sorted (list ++ (list.foldl without [iv]).filter (!·.isEmpty))

/-- The interval that a minute belongs to. -/
def covering? (list : Timeline) (minute : Nat) : Option Interval :=
  List.find? (·.contains minute) list

/-- What a timeline says of a minute. -/
def labelAt (list : Timeline) (minute : Nat) : Option Label :=
  (list.covering? minute).map Interval.label

end Timeline

end OpeningHours
