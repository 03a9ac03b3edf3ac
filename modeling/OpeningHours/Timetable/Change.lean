import OpeningHours.Timetable.Basic

/-!
# The search for a change

From an instant on, or back from it, the weeks are looked at one by one for a
segment whose status differs from the status in force at the instant. The search
ends at a change, at the horizon, or at the end of the calendar; at the latter two
the status lasts as far as it could see.

Each step either settles the search or goes on to the next week, which is never more
than one past the horizon; that is why the search ends.
-/

namespace OpeningHours

/-- Which way to look for a change. -/
inductive Direction where
  | forward | backward
  deriving DecidableEq, Inhabited

/-- What a search finds. -/
inductive Outlook where
  /--
  At a moment the status changes. The status given is the one that differs from the
  one started from: it begins at the moment, or ends there when the search goes back.
  -/
  | changes (moment : Instant) (status : Status) (comment? : Option String)
  /-- The status lasts as far as the search can see. -/
  | lasts (status : Status) (comment? : Option String)
  deriving DecidableEq

namespace Outlook

/-- Whether nothing changes. -/
def isLasting : Outlook → Bool
  | changes .. => false
  | lasts .. => true

/-- When the change takes place. -/
def moment? : Outlook → Option Instant
  | changes moment _ _ => some moment
  | lasts .. => none

/-- The status that differs, or the one that lasts. -/
def status : Outlook → Status
  | changes _ status _ => status
  | lasts status _ => status

/-- The comment on that status. -/
def comment? : Outlook → Option String
  | changes _ _ comment? => comment?
  | lasts _ comment? => comment?

end Outlook

/-- A search under way: where it started, what held there, and which way it goes. -/
structure ChangeSearch where
  rules : List Rule
  env : Setting
  direction : Direction
  origin : Instant
  standing : Standing

/-- What a step of a search comes to. -/
inductive Progress where
  /-- Nothing found yet; the next week to look at lies so many weeks away. -/
  | searching (weeks : Nat)
  | settled (outlook : Outlook)
  deriving DecidableEq

namespace ChangeSearch

/-- The status lasts as far as the search can see. -/
def lasting (s : ChangeSearch) : Outlook := .lasts s.standing.status s.standing.comment?

/-- The date at which a week is looked up, so many weeks away from the origin. -/
def anchor? (s : ChangeSearch) (weeks : Nat) : Option Date :=
  match s.direction with
  | .forward => s.origin.date.add? (7 * weeks)
  | .backward => s.origin.date.add? (-(7 * weeks))

/-- Whether a segment has another status than the origin. -/
def differs (s : ChangeSearch) (g : Segment Instant) : Bool := g.status != s.standing.status

/-- The first segment after the origin with another status: its start is the change. -/
def firstAfter? (s : ChangeSearch) (segments : List (Segment Instant)) : Option Outlook :=
  (segments.find? fun g => decide (s.origin < g.start) && s.differs g).map
    fun g => .changes g.start g.status g.comment?

/-- The last segment that starts before the origin with another status: its stop is the change. -/
def lastBefore? (s : ChangeSearch) (segments : List (Segment Instant)) : Option Outlook :=
  (segments.reverse.find? fun g => decide (g.start < s.origin) && s.differs g).map
    fun g => .changes g.stop g.status g.comment?

/-- The change in one week, if it has one. -/
def changeIn? (s : ChangeSearch) (segments : List (Segment Instant)) : Option Outlook :=
  match s.direction with
  | .forward => s.firstAfter? segments
  | .backward => s.lastBefore? segments

/-- Looks at the week that lies so many weeks away. -/
def step (s : ChangeSearch) (weeks : Nat) : Except HoursError Progress :=
  if s.env.horizon < weeks then .ok (.settled s.lasting)
  else
    match s.anchor? weeks with
    | none => .ok (.settled s.lasting)
    | some anchor =>
      match Timetable.around s.rules s.env anchor with
      | .error e => .error e
      | .ok timetable =>
        match s.changeIn? timetable.segments with
        | some outlook => .ok (.settled outlook)
        | none => .ok (.searching (weeks + 1))

/-- A step that does not settle the search goes on to the next week, and stays within the horizon. -/
theorem searching_of_step {s : ChangeSearch} {weeks next : Nat}
    (h : s.step weeks = .ok (.searching next)) : next = weeks + 1 ∧ weeks ≤ s.env.horizon := by
  unfold step at h
  split at h
  · cases h
  · split at h
    · cases h
    · split at h
      · cases h
      · split at h
        · cases h
        · cases h
          exact ⟨rfl, by omega⟩

/-- Takes steps until the search is settled. -/
def finish (s : ChangeSearch) (weeks : Nat) : Except HoursError Outlook :=
  match h : s.step weeks with
  | .error e => .error e
  | .ok (.settled outlook) => .ok outlook
  | .ok (.searching next) =>
    have := searching_of_step h
    s.finish next
termination_by s.env.horizon + 1 - weeks

/-- What the status does from an instant on, or did before it. -/
def run (rules : List Rule) (env : Setting) (origin : Instant) (direction : Direction) :
    Except HoursError Outlook := do
  let timetable ← Timetable.around rules env origin.date
  let search : ChangeSearch :=
    { rules, env, direction, origin, standing := timetable.standingFrom origin }
  search.finish 0

end ChangeSearch

end OpeningHours
