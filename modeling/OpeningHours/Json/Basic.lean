import OpeningHours.Json.Number

/-!
# JSON with its faults

A document is read from left to right and the first fault decides. What counts as a
fault depends on the reader: a string with a lone surrogate is a fault where it is
read and none where it is passed over; a number is a fault where a string belongs.
So a scanned document keeps its faults in their places, and leaves it to the readers
to run into them.

A text that breaks off, or goes wrong, leaves a value that ends there. No reader and
no skipping gets past such a value, so nothing after it matters.
-/

namespace OpeningHours

/-- The three kinds of fault. -/
inductive Fault where
  /-- The text is not JSON. -/
  | malformed
  /-- The text is JSON, and not what belongs there. -/
  | mismatch
  /-- The text ends early. -/
  | truncated
  deriving DecidableEq, Inhabited

/-- The words that messages have for the kinds of fault. -/
def Fault.word : Fault → String
  | malformed => "syntax"
  | mismatch => "data"
  | truncated => "eof"

namespace Json

/-- Where a text breaks off or goes wrong. -/
inductive Break where
  /-- Where a value should begin. -/
  | blank (fault : Fault)
  /-- In the word for null. -/
  | null (fault : Fault)
  /-- In the word for a truth value. -/
  | bool (fault : Fault)
  /-- In a number. -/
  | number (fault : Fault)
  /-- In a string, which a reader and one who passes over it may notice at different places. -/
  | text (read skip : Fault)

/-- The fault that reading runs into. -/
def Break.read : Break → Fault
  | blank f | null f | bool f | number f => f
  | text read _ => read

/-- The fault that passing over runs into. -/
def Break.skip : Break → Fault
  | blank f | null f | bool f => f
  | number _ => .malformed
  | text _ skip => skip

/-- The fault that looking for a word or a key runs into: either starts with a quote. -/
def Break.word : Break → Fault
  | blank f => f
  | null _ | bool _ | number _ => .malformed
  | text read _ => read

/-- The fault that passing over a key runs into. -/
def Break.skipKey : Break → Fault
  | text _ skip => skip
  | place => place.word

/-- The key of a member. -/
inductive Key where
  | name (text : String)
  /-- A string that cannot be read, but can be passed over. -/
  | unreadable (fault : Fault)
  /-- Something that is no key, with what it is in place of the value. -/
  | stray

end Json

/-- A scanned document, or a part of it. -/
inductive Json where
  | null
  | bool (value : Bool)
  /-- A number, or the fault of reading it. -/
  | number (value : Except Fault Json.Number)
  /-- A string, or the fault of reading it. -/
  | text (value : Except Fault String)
  /-- An array; `cut?` is the fault that stands in the place of its closing bracket. -/
  | array (items : List Json) (cut? : Option Fault)
  /-- An object; `cut?` is the fault that stands in the place of its closing brace. -/
  | object (members : List (Json.Key × Json)) (cut? : Option Fault)
  /-- The text ends here. -/
  | broken (place : Json.Break)

namespace Json

/-- The fault of a value where something else belongs. A number or a string is read all the same. -/
def mismatch : Json → Fault
  | number (.error f) | text (.error f) => f
  | broken place => place.read
  | _ => .mismatch

/-- The fault of something that is no key where a key belongs. -/
def strayFault : Json → Fault
  | broken place => place.word
  | _ => .malformed

mutual

/-- The first fault in passing over a value. -/
def skipFault : Json → Option Fault
  | array items cut? => (skipItems items).or cut?
  | object members cut? => (skipMembers members).or cut?
  | broken place => some place.skip
  | _ => none

/-- The first fault in passing over items. -/
def skipItems : List Json → Option Fault
  | [] => none
  | item :: rest => (skipFault item).or (skipItems rest)

/-- The first fault in passing over members. -/
def skipMembers : List (Key × Json) → Option Fault
  | [] => none
  | (.stray, .broken place) :: _ => some place.skipKey
  | (.stray, _) :: _ => some .malformed
  | (_, value) :: rest => (skipFault value).or (skipMembers rest)

end

/-! ## Writing -/

/-- An integer. -/
def ofInt (n : Int) : Json := .number (.ok (.integer n))

/-- A string. -/
def ofString (s : String) : Json := .text (.ok s)

/-- A list. -/
def ofList (items : List Json) : Json := .array items none

/-- A value that may be absent. -/
def ofOption {α : Type} (write : α → Json) : Option α → Json
  | some a => write a
  | none => .null

/-- An object with named members. -/
def ofMembers (members : List (String × Json)) : Json :=
  .object (members.map fun (name, value) => (.name name, value)) none

/-- A member with a list for its value, unless the list is empty. -/
def listMember {α : Type} (name : String) (write : α → Json) (items : List α) : List (String × Json) :=
  if items.isEmpty then [] else [(name, .ofList (items.map write))]

end Json

end OpeningHours
