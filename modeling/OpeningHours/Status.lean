/-!
# Status

What is known of a place at a moment, and the identity of the rule that says so.
-/

namespace OpeningHours

/-- Whether a place is open. -/
inductive Status where
  | opened | closed | unknown
  deriving DecidableEq, Inhabited

namespace Status

/-- The word for a status, in rules and in answers. -/
def word : Status → String
  | opened => "open"
  | closed => "closed"
  | unknown => "unknown"

end Status

/-- The name of a rule. -/
@[ext] structure RuleId where
  text : String
  deriving DecidableEq, Inhabited

end OpeningHours
