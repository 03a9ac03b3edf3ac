import OpeningHours.Calendar.Instant
import OpeningHours.Config

/-!
# Loading rules and configurations

A list of rules has at least one rule, and no fixed time in it lies past 48:00. A
configuration searches at least one week. What is wrong with a file is told as a
chain of links, from what was being done to the cause.
-/

namespace OpeningHours

/-- Why a text is no list of rules. -/
inductive RuleListError where
  | json (fault : Fault)
  | empty
  /-- A fixed time past 48:00, and the rule it belongs to. -/
  | timeOutOfRange (minute : Nat) (rule : RuleId)
  deriving DecidableEq

/-- The text of a fault of JSON. -/
def Fault.message (f : Fault) : String := "json:" ++ f.word

/-- The text of an error. -/
def RuleListError.message : RuleListError → String
  | json fault => fault.message
  | empty => "rule list cannot be empty"
  | timeOutOfRange minute rule =>
    "time " ++ toString minute ++ " of rule " ++ rule.text ++ " is out of range"

/-- Why a file cannot be loaded. -/
inductive LoadError where
  | missing (path : String)
  | rules (path : String) (cause : RuleListError)
  | config (path : String) (fault : Fault)
  | zeroHorizon
  deriving DecidableEq

/-- The text of an error, link by link. -/
def LoadError.message : LoadError → String
  | missing path => "reading " ++ path ++ ": io:NotFound"
  | rules path cause => "parsing rules " ++ path ++ ": " ++ cause.message
  | config path fault => "parsing config " ++ path ++ ": " ++ fault.message
  | zeroHorizon => "search_horizon_weeks must be > 0"

namespace Rule

/-- The times of a rule in order, the start of a span before its end. -/
def timePoints (r : Rule) : List TimePoint := r.times.flatMap fun s => s.start :: s.stop?.toList

/-- The minute of a fixed time past 48:00. -/
def lateMinute? : TimePoint → Option Nat
  | .fixed minute => if 2 * minutesPerDay < minute.toNat then some minute.toNat else none
  | .solar .. => none

/-- The first time of a rule that is out of range. -/
def timeFault? (r : Rule) : Option RuleListError :=
  (r.timePoints.findSome? lateMinute?).map fun minute => .timeOutOfRange minute r.id

/-- A list of rules that has a rule, and no time out of range. -/
def checkList (rules : List Rule) : Except RuleListError (List Rule) :=
  if rules.isEmpty then .error .empty
  else
    match rules.findSome? timeFault? with
    | some e => .error e
    | none => .ok rules

/-- What was read as a list of rules, if it passes. -/
def accept : Except Fault (List Rule) → Except RuleListError (List Rule)
  | .ok rules => checkList rules
  | .error fault => .error (.json fault)

/-- The rules of a JSON value. A rule without an id gets one by its place. -/
def listOfJson (fresh : Nat → RuleId) (j : Json) : Except RuleListError (List Rule) :=
  accept (readList fresh j)

/-- The rules of a text. -/
def parseList (fresh : Nat → RuleId) (s : Json.Bytes) : Except RuleListError (List Rule) :=
  accept (Json.readDocument (readList fresh) s)

/-- The rules of a file, given its bytes if there is such a file. -/
def load (fresh : Nat → RuleId) (path : String) : Option Json.Bytes → Except LoadError (List Rule)
  | none => .error (.missing path)
  | some s => (parseList fresh s).mapError (.rules path)

end Rule

namespace Config

/-- What was read as a configuration, if it searches at least one week. -/
def accept (path : String) : Except Fault Config → Except LoadError Config
  | .ok c => if c.horizon = 0 then .error .zeroHorizon else .ok c
  | .error fault => .error (.config path fault)

/-- The configuration of a JSON value in a file. -/
def ofJson (path : String) (j : Json) : Except LoadError Config := accept path (record.read j)

/-- The configuration of a file, given its bytes if there is such a file. -/
def load (path : String) : Option Json.Bytes → Except LoadError Config
  | none => .error (.missing path)
  | some s => accept path (Json.readDocument record.read s)

end Config

end OpeningHours
