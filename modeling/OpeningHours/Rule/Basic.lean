import OpeningHours.Status
import OpeningHours.Rule.Selector
import OpeningHours.Rule.DateRange
import OpeningHours.Rule.TimeSpan

/-!
# Rules

A rule picks days by its selectors and gives the spans of time of those days a
status. Its kind says how it combines with the rules before it.
-/

namespace OpeningHours

/-- How a rule combines with the rules before it on the same day. -/
inductive RuleKind where
  /-- Replaces all that was said of the day. -/
  | override
  /-- Adds its spans, and wins where they overlap. -/
  | additional
  /-- Fills only what the rules before it left open. -/
  | fallback
  deriving DecidableEq, Inhabited

/-- The word for a kind of rule. -/
def RuleKind.word : RuleKind → String
  | override => "override"
  | additional => "additional"
  | fallback => "fallback"

/-- A rule. A list of selectors that is empty selects everything. -/
@[ext] structure Rule where
  id : RuleId
  kind : RuleKind := .override
  years : List YearRange := []
  weeks : List WeekRange := []
  dates : List DateRange := []
  weekdays : List WeekdayRange := []
  holidays : List HolidaySelector := []
  times : List TimeSpan := []
  status : Status := .opened
  comment? : Option String := none
  deriving DecidableEq, Inhabited

namespace Rule

/-- Whether the rule only fills gaps. -/
def isFallback (r : Rule) : Bool := r.kind == .fallback

/-- Whether the rule picks its days by date. -/
def hasDates (r : Rule) : Bool := !r.dates.isEmpty

end Rule

end OpeningHours
