import OpeningHours.Json.Scan

/-!
# Reading values out of JSON

A reader takes a scanned value to what it stands for, or to the first fault it runs
into. Integers have to be written as integers and fit their type; a word stands for
itself or is the only key of an object.

A record is read from an object by the names of its fields, or from an array by
their order. Each field looks for its own value and notes at which member it runs
into a fault, and the record itself notes the faults that no field sees: a field
given twice, a fault in a member it passes over, a text that breaks off. The fault
of the earliest member is the fault of the record.
-/

namespace OpeningHours.Json

/-- Reads a value, or gives the first fault. -/
abbrev Reader (α : Type) := Json → Except Fault α

/-! ## Scalars -/

/-- Reads null. -/
def readNull : Reader Unit
  | null => .ok ()
  | j => .error j.mismatch

/-- Reads a truth value. -/
def readBool : Reader Bool
  | bool value => .ok value
  | j => .error j.mismatch

/-- Reads a string. -/
def readString : Reader String
  | text (.ok value) => .ok value
  | j => .error j.mismatch

/-- Reads a number written as an integer. -/
def readInt : Reader Int
  | number (.ok (.integer value)) => .ok value
  | j => .error j.mismatch

/-- Reads any number. -/
def readFloat : Reader Float
  | number (.ok value) => .ok value.toFloat
  | j => .error j.mismatch

/-- An answer, or the fault that the value is not what belongs there. -/
def orMismatch {α : Type} : Option α → Except Fault α
  | some a => .ok a
  | none => .error .mismatch

/-- Whether an integer is at least `-below` and less than `above`. -/
def isWithin (below above : Nat) : Int → Bool
  | .ofNat n => decide (n < above)
  | .negSucc n => decide (n < below)

theorem isWithin_iff {below above : Nat} {value : Int} :
    isWithin below above value = true ↔ -(below : Int) ≤ value ∧ value < above := by
  cases value <;> simp only [isWithin, decide_eq_true_eq, Int.ofNat_eq_natCast] <;> omega

/-- Reads an integer that is at least `-below` and less than `above`. -/
def readIntWithin (below above : Nat) : Reader Int := fun j => do
  let value ← readInt j
  orMismatch (if isWithin below above value then some value else none)

/-- Reads an integer of 32 bits without a sign. -/
def readUInt32 : Reader UInt32 := fun j => do
  return (← readIntWithin 0 UInt32.size j).toNat.toUInt32

/-- Reads an integer of 32 bits with a sign. -/
def readInt32 : Reader Int32 := fun j => do return (← readIntWithin 0x80000000 0x80000000 j).toInt32

/-- Reads an integer of 64 bits with a sign. -/
def readInt64 : Reader Int64 := fun j => do
  return (← readIntWithin 0x8000000000000000 0x8000000000000000 j).toInt64

/-- Reads a string that stands for something. -/
def readParsed {α : Type} (parse : String → Option α) : Reader α := fun j => do
  orMismatch (parse (← readString j))

/-! ## Options, lists and words -/

/-- Reads null as nothing. -/
def readOption {α : Type} (read : Reader α) : Reader (Option α)
  | null => .ok none
  | broken (.null fault) => .error fault
  | j => (read j).map some

/-- The fault in the place of a closing bracket, if there is one, after what was read. -/
def unlessCut {α : Type} (a : α) : Option Fault → Except Fault α
  | none => .ok a
  | some fault => .error fault

/-- Reads items one by one, each by a reader for its place. -/
def readItems {α : Type} (read : Nat → Reader α) (place : Nat) : List Json → Except Fault (List α)
  | [] => .ok []
  | item :: rest => do
    let a ← read place item
    return a :: (← readItems read (place + 1) rest)

/-- Reads an array, each item by a reader for its place. -/
def readIndexed {α : Type} (read : Nat → Reader α) : Reader (List α)
  | array items cut? => do unlessCut (← readItems read 0 items) cut?
  | j => .error j.mismatch

/-- Reads an array, item by item. -/
def readList {α : Type} (read : Reader α) : Reader (List α) := readIndexed fun _ => read

/--
Reads a choice: a word by itself, or an object with the word as its only key and
what belongs to the word as its value. Nothing else may start where a word belongs.
-/
def readChoice {α : Type} (bare : String → Option α) (content : String → Option (Reader α)) : Reader α
  | text (.ok word) => orMismatch (bare word)
  | text (.error fault) => .error fault
  | object [] cut? => .error (cut?.getD .malformed)
  | object ((.name word, value) :: more) cut? => do
    let a ← (← orMismatch (content word)) value
    if more.isEmpty then unlessCut a cut? else .error .malformed
  | object ((.unreadable fault, _) :: _) _ => .error fault
  | object ((.stray, seen) :: _) _ => .error seen.strayFault
  | broken place => .error place.word
  | _ => .error .malformed

/-- Reads one of some words. In an object the word has null for its value. -/
def readWord {α : Type} (find? : String → Option α) : Reader α :=
  readChoice find? fun word => (find? word).map fun a j => do readNull j; return a

/-- Finds the value whose word is given. -/
def byWord {α : Type} (word : α → String) (all : List α) (s : String) : Option α :=
  all.find? fun a => word a == s

/-! ## Records -/

/-- What a field or a record comes to: a value, or a fault and the place of its member. -/
inductive Outcome (α : Type) where
  | value (a : α)
  | fault (place : Nat) (fault : Fault)

namespace Outcome

variable {α β γ : Type}

/-- Two outcomes as one; of two faults the one found earlier counts. -/
def both (f : α → β → γ) : Outcome α → Outcome β → Outcome γ
  | value a, value b => value (f a b)
  | value _, fault place e => fault place e
  | fault place e, value _ => fault place e
  | fault place e, fault place' e' => if place' < place then fault place' e' else fault place e

/-- An outcome beside a fault that may have been found earlier. -/
def beside (a : Outcome α) : Option (Nat × Fault) → Outcome α
  | none => a
  | some (place, e) => both (fun () a => a) (fault place e) a

/-- The outcome without the place of its fault. -/
def result : Outcome α → Except Fault α
  | value a => .ok a
  | fault _ e => .error e

end Outcome

/-- How a record is read: the names of its fields in order, and where their values come from. -/
structure Record (α : Type) where
  names : List String
  /-- Reads the fields from the members of an object. -/
  ofMembers : List (Key × Json) → Outcome α
  /-- Reads the fields from the items of an array, the first field from the item at a place. -/
  ofItems : Nat → List Json → Option Fault → Outcome α

/-- Whether a member has a name. -/
def Key.isNamed (name : String) : Key → Bool
  | .name s => s == name
  | _ => false

/-- The first member with a name, and its place among the members. -/
def findMember? (name : String) : List (Key × Json) → Option (Nat × Json)
  | [] => none
  | (key, value) :: rest =>
    if key.isNamed name then some (0, value)
    else (findMember? name rest).map fun (i, value) => (i + 1, value)

/-- What is read at a place. -/
def readAt {α : Type} (read : Reader α) (place : Nat) (j : Json) : Outcome α :=
  match read j with
  | .ok a => .value a
  | .error fault => .fault place fault

/-- What a field comes to that is not there. That is found out only at the end. -/
def absentAt {α : Type} (place : Nat) : Option α → Outcome α
  | some a => .value a
  | none => .fault place .mismatch

namespace Record

/-- A field with a name, and what it is when it is not there. -/
def field {α : Type} (name : String) (read : Reader α) (absent? : Option α) : Record α where
  names := [name]
  ofMembers members :=
    match findMember? name members with
    | some (place, value) => readAt read place value
    | none => absentAt (members.length + 1) absent?
  ofItems place items cut? :=
    match items[place]?, cut? with
    | some value, _ => readAt read place value
    | none, some fault => .fault place fault
    | none, none => absentAt place absent?

/-- A field that has to be there. -/
def required {α : Type} (name : String) (read : Reader α) : Record α := field name read none

/-- A field that is a value of its own when it is not there. -/
def default {α : Type} (name : String) (read : Reader α) (absent : α) : Record α :=
  field name read (some absent)

/-- A field that may be null, which it is when it is not there. -/
def optional {α : Type} (name : String) (read : Reader α) : Record (Option α) :=
  field name (readOption read) (some none)

/-- A list, which is empty when it is not there. -/
def list {α : Type} (name : String) (read : Reader α) : Record (List α) :=
  field name (readList read) (some [])

instance : Applicative Record where
  pure a := { names := [], ofMembers := fun _ => .value a, ofItems := fun _ _ _ => .value a }
  seq f a := {
    names := f.names ++ (a ()).names
    ofMembers := fun members => (f.ofMembers members).both (· ·) ((a ()).ofMembers members)
    ofItems := fun place items cut? =>
      (f.ofItems place items cut?).both (· ·)
        ((a ()).ofItems (place + f.names.length) items cut?) }

/--
The first fault among the members of an object that no field sees, the names in
`seen` having come up already.
-/
def memberFault? (names : List String) : List String → Nat → List (Key × Json) → Option (Nat × Fault)
  | _, _, [] => none
  | seen, place, (.name name, value) :: rest =>
    if names.contains name then
      if seen.contains name then some (place, .mismatch)
      else memberFault? names (name :: seen) (place + 1) rest
    else
      match value.skipFault with
      | some fault => some (place, fault)
      | none => memberFault? names seen (place + 1) rest
  | _, place, (.unreadable fault, _) :: _ => some (place, fault)
  | _, place, (.stray, seen) :: _ => some (place, seen.strayFault)

/-- The first fault of an object that no field sees. -/
def objectFault? (names : List String) (members : List (Key × Json)) (cut? : Option Fault) :
    Option (Nat × Fault) :=
  (memberFault? names [] 0 members).or (cut?.map fun fault => (members.length, fault))

/-- The first fault of an array that no field sees: an item too many, or a text that breaks off. -/
def arrayFault? (names : List String) (items : List Json) (cut? : Option Fault) :
    Option (Nat × Fault) :=
  if names.length < items.length then some (names.length, .malformed)
  else cut?.map fun fault => (items.length, fault)

/-- Reads a record. -/
def read {α : Type} (r : Record α) : Reader α
  | object members cut? =>
    ((r.ofMembers members).beside (objectFault? r.names members cut?)).result
  | array items cut? => ((r.ofItems 0 items cut?).beside (arrayFault? r.names items cut?)).result
  | j => .error j.mismatch

end Record

/-! ## Documents -/

/-- Reads a whole text. What comes after the value is looked at last. -/
def readDocument {α : Type} (read : Reader α) (s : Bytes) : Except Fault α := do
  let document := scan s
  let a ← read document.root
  if document.trailing then .error .malformed else .ok a

end OpeningHours.Json
