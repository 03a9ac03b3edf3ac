import OpeningHours.Json.Basic

/-!
# Scanning a text into JSON

A text is a list of bytes. Strings and numbers are taken apart by functions of their
own, which end where the text goes wrong; values, arrays and objects call each other
on what is left, which is shorter every time.
-/

namespace OpeningHours.Json

/-- The bytes of a text. -/
abbrev Bytes := List UInt8

/-- What is left of a text after something was taken from it. -/
abbrev Rest (s : Bytes) := { r : Bytes // r.length < s.length }

/-- Blanks are the space, the tab and the two line ends. -/
def isBlank (b : UInt8) : Bool := b == 0x20 || b == 0x0A || b == 0x09 || b == 0x0D

/-- A text without the blanks it starts with. -/
def trim (s : Bytes) : Bytes := s.dropWhile isBlank

theorem length_trim_le (s : Bytes) : (trim s).length ≤ s.length :=
  (List.dropWhile_suffix isBlank).length_le

/-! ## Strings -/

/-- The value of a hexadecimal digit. -/
def hexDigit? (b : UInt8) : Option Nat :=
  let n := b.toNat
  if 48 ≤ n ∧ n ≤ 57 then some (n - 48)
  else if 65 ≤ n ∧ n ≤ 70 then some (n - 55)
  else if 97 ≤ n ∧ n ≤ 102 then some (n - 87)
  else none

/-- The number that four hexadecimal digits stand for. -/
def hexValue? (a b c d : UInt8) : Option Nat := do
  return (← hexDigit? a) * 4096 + (← hexDigit? b) * 256 + (← hexDigit? c) * 16 + (← hexDigit? d)

/-- The byte that an escape of two characters stands for. -/
def escaped? (b : UInt8) : Option UInt8 :=
  if b == 0x22 || b == 0x5C || b == 0x2F then some b
  else if b == 0x62 then some 0x08
  else if b == 0x66 then some 0x0C
  else if b == 0x6E then some 0x0A
  else if b == 0x72 then some 0x0D
  else if b == 0x74 then some 0x09
  else none

/-- Passes over a string, from after its opening quote to after its closing one. -/
def skipText : Bytes → Except Fault Bytes
  | [] => .error .truncated
  | 0x22 :: rest => .ok rest
  | 0x5C :: [] => .error .truncated
  | 0x5C :: 0x75 :: a :: b :: c :: d :: rest =>
    if (hexValue? a b c d).isSome then skipText rest else .error .malformed
  | 0x5C :: b :: rest =>
    if b == 0x75 then .error .truncated
    else if (escaped? b).isSome then skipText rest
    else .error .malformed
  | b :: rest => if b < 0x20 then .error .malformed else skipText rest

theorem length_skipText {s rest : Bytes} (h : skipText s = .ok rest) : rest.length < s.length := by
  fun_induction skipText s with
  | case2 rest => cases h; simp
  | case4 a b c d rest valid ih => have := ih h; simp; omega
  | case7 => rename_i ih; have := ih h; simp; omega
  | case10 => rename_i ih; have := ih h; simp; omega
  | _ => cases h

/-- The bytes of a character. -/
def bytesOf (code : Nat) : Bytes := String.utf8EncodeChar (Char.ofNat code)

/-- Whether a number is the first half of a surrogate pair. -/
def isLeading (code : Nat) : Bool := 0xD800 ≤ code && code ≤ 0xDBFF

/-- Whether a number is the second half of a surrogate pair. -/
def isTrailing (code : Nat) : Bool := 0xDC00 ≤ code && code ≤ 0xDFFF

/-- The character that two halves make. -/
def pairCode (leading trailing : Nat) : Nat := (leading - 0xD800) * 1024 + (trailing - 0xDC00) + 0x10000

/--
The bytes of a string, from after its opening quote on, with its escapes resolved.
A first half of a surrogate pair has to be followed by a second half, and a second
half by itself is refused.
-/
def readBytes : Bytes → Except Fault Bytes
  | [] => .error .truncated
  | 0x22 :: _ => .ok []
  | 0x5C :: [] => .error .truncated
  | 0x5C :: 0x75 :: a :: b :: c :: d :: rest =>
    match hexValue? a b c d with
    | none => .error .malformed
    | some code =>
      if isTrailing code then .error .malformed
      else if isLeading code then
        match rest with
        | [] => .error .truncated
        | 0x5C :: [] => .error .truncated
        | 0x5C :: 0x75 :: e :: f :: g :: h :: rest =>
          match hexValue? e f g h with
          | none => .error .malformed
          | some second =>
            if isTrailing second then
              (readBytes rest).map (bytesOf (pairCode code second) ++ ·)
            else .error .malformed
        | 0x5C :: 0x75 :: _ => .error .truncated
        | _ => .error .malformed
      else (readBytes rest).map (bytesOf code ++ ·)
  | 0x5C :: b :: rest =>
    if b == 0x75 then .error .truncated
    else
      match escaped? b with
      | some byte => (readBytes rest).map (byte :: ·)
      | none => .error .malformed
  | b :: rest => if b < 0x20 then .error .malformed else (readBytes rest).map (b :: ·)

/-- Reads a string, from after its opening quote on. Its bytes have to be UTF-8. -/
def readText (s : Bytes) : Except Fault String :=
  match readBytes s with
  | .error f => .error f
  | .ok bytes =>
    match String.fromUTF8? ⟨bytes.toArray⟩ with
    | some content => .ok content
    | none => .error .malformed

/-- The fault of a string that cannot even be passed over. -/
def brokenText (s : Bytes) (skip : Fault) : Json :=
  match readText s with
  | .error read => .broken (.text read skip)
  | .ok _ => .broken (.text skip skip)

/-! ## Numbers and words -/

/-- Whether a byte is a decimal digit. -/
def isDigit (b : UInt8) : Bool := 0x30 ≤ b && b ≤ 0x39

/-- The digits at the head of a text. -/
def digits (s : Bytes) : List Nat := (s.takeWhile isDigit).map fun b => b.toNat - 48

/-- A text without the digits it starts with. -/
def dropDigits (s : Bytes) : Bytes := s.dropWhile isDigit

theorem length_dropDigits_lt {s : Bytes} (h : digits s ≠ []) : (dropDigits s).length < s.length := by
  have hlen := congrArg List.length (List.takeWhile_append_dropWhile (p := isDigit) (l := s))
  have hpos : 0 < (s.takeWhile isDigit).length := by
    rw [List.length_pos_iff]
    intro hnil
    exact h (by simp [digits, hnil])
  simp only [List.length_append] at hlen
  unfold dropDigits
  omega

/-- The fault where a digit belongs. -/
def digitFault (s : Bytes) : Fault := if s.isEmpty then .truncated else .malformed

/-- The digits at the head of a text, of which there has to be one, and the rest. -/
def someDigits (s : Bytes) : Except Fault (List Nat × Rest s) :=
  if h : digits s = [] then .error (digitFault s)
  else .ok (digits s, ⟨dropDigits s, length_dropDigits_lt h⟩)

/-- What is left of a text from which something may have been taken. -/
abbrev Remainder (s : Bytes) := { r : Bytes // r.length ≤ s.length }

/-- The fraction of a numeral, if one follows, and the rest. -/
def scanFraction (s : Bytes) : Except Fault (Option (List Nat) × Remainder s) :=
  match s with
  | 0x2E :: rest => do
    let (ds, ⟨r, h⟩) ← someDigits rest
    return (some ds, ⟨r, by simp; omega⟩)
  | s => .ok (none, ⟨s, Nat.le_refl _⟩)

/-- The sign of an exponent, and the rest. -/
def scanSign (s : Bytes) : Bool × Remainder s :=
  match s with
  | 0x2D :: rest => (true, ⟨rest, by simp⟩)
  | 0x2B :: rest => (false, ⟨rest, by simp⟩)
  | s => (false, ⟨s, Nat.le_refl _⟩)

/-- The exponent of a numeral, if one follows, and the rest. -/
def scanExponent (s : Bytes) : Except Fault (Option Exponent × Remainder s) :=
  match s with
  | [] => .ok (none, ⟨[], Nat.le_refl _⟩)
  | b :: rest =>
    if b == 0x65 || b == 0x45 then do
      let (negative, ⟨r₁, h₁⟩) := scanSign rest
      let (ds, ⟨r₂, h₂⟩) ← someDigits r₁
      return (some ⟨negative, ds⟩, ⟨r₂, by simp; omega⟩)
    else .ok (none, ⟨b :: rest, Nat.le_refl _⟩)

/-- A numeral after its sign, and the rest. A zero is followed by no other digit. -/
def scanNumeral (negative : Bool) (s : Bytes) : Except Fault (Numeral × Rest s) := do
  let (whole, ⟨r₁, h₁⟩) ← someDigits s
  if whole.head? = some 0 ∧ whole.length ≠ 1 then .error .malformed
  let (fraction?, ⟨r₂, h₂⟩) ← scanFraction r₁
  let (exponent?, ⟨r₃, h₃⟩) ← scanExponent r₂
  return (⟨negative, whole, fraction?, exponent?⟩, ⟨r₃, by omega⟩)

/-- The value of a numeral; one that is too large is malformed. -/
def Numeral.read (n : Numeral) : Except Fault Number :=
  match n.number? with
  | some value => .ok value
  | none => .error .malformed

/-- A word that has to stand at the head of a text, and the rest. -/
def scanWord (word s : Bytes) : Except Fault (Remainder s) :=
  match word, s with
  | [], s => .ok ⟨s, Nat.le_refl _⟩
  | _ :: _, [] => .error .truncated
  | w :: word, b :: rest =>
    if w == b then
      match scanWord word rest with
      | .ok ⟨r, h⟩ => .ok ⟨r, by simp; omega⟩
      | .error f => .error f
    else .error .malformed

/-! ## Values -/

/-- A value and what is left of the text after it, unless the text ends in the value. -/
abbrev Scanned (s : Bytes) := Json × Option (Rest s)

/-- A value that ends the text. -/
def ended (s : Bytes) (place : Break) : Scanned s := (.broken place, none)

/-- A text that starts with a byte, seen from what is left of the text after that byte. -/
def Scanned.after {b : UInt8} {s : Bytes} (value : Json) (rest : Remainder s) : Scanned (b :: s) :=
  (value, some ⟨rest.val, Nat.lt_succ_of_le rest.property⟩)

/-- Items or members, the fault in the place of the closing bracket, and what is left. -/
structure Series (α : Type) (s : Bytes) where
  entries : List α
  cut? : Option Fault
  rest? : Option (Rest s)

namespace Series

variable {α : Type} {s : Bytes}

/-- A series in which the text goes wrong. -/
def cut (fault : Fault) : Series α s := ⟨[], some fault, none⟩

/-- A series whose last entry does not end. -/
def last (entry : α) : Series α s := ⟨[entry], some .truncated, none⟩

/-- The same series, as the head of a longer text. -/
def within {t : Bytes} (series : Series α t) (h : t.length ≤ s.length) : Series α s :=
  ⟨series.entries, series.cut?, series.rest?.map fun ⟨r, hr⟩ => ⟨r, Nat.lt_of_lt_of_le hr h⟩⟩

/-- The series with one more entry in front. -/
def cons (entry : α) (series : Series α s) : Series α s :=
  { series with entries := entry :: series.entries }

end Series

/-- The scalar, or the break, that a text starts with, given its first byte and the others. -/
def scanScalar (b : UInt8) (s : Bytes) : Scanned (b :: s) :=
  let word (letters : Bytes) (value : Json) (place : Fault → Break) : Scanned (b :: s) :=
    match scanWord letters s with
    | .ok rest => .after value rest
    | .error f => ended _ (place f)
  if b == 0x22 then
    match h : skipText s with
    | .ok rest => (.text (readText s), some ⟨rest, by have := length_skipText h; simp; omega⟩)
    | .error f => (brokenText s f, none)
  else if b == 0x6E then word [0x75, 0x6C, 0x6C] .null .null
  else if b == 0x74 then word [0x72, 0x75, 0x65] (.bool true) .bool
  else if b == 0x66 then word [0x61, 0x6C, 0x73, 0x65] (.bool false) .bool
  else if b == 0x2D then
    match scanNumeral true s with
    | .ok (n, ⟨rest, h⟩) => .after (.number n.read) ⟨rest, by omega⟩
    | .error f => ended _ (.number f)
  else if isDigit b then
    match scanNumeral false (b :: s) with
    | .ok (n, rest) => (.number n.read, some rest)
    | .error f => ended _ (.number f)
  else ended _ (.blank .malformed)

mutual

/-- The value at the head of a text without blanks. -/
def scanValue (s : Bytes) : Scanned s :=
  match s with
  | [] => ended [] (.blank .truncated)
  | b :: rest =>
    if b == 0x5B then
      let items := scanItems rest true
      (.array items.entries items.cut?, (items.within (s := b :: rest) (by simp)).rest?)
    else if b == 0x7B then
      let members := scanMembers rest true
      (.object members.entries members.cut?, (members.within (s := b :: rest) (by simp)).rest?)
    else scanScalar b rest
termination_by 4 * s.length

/-- The items of an array, after its bracket or, if one went before, after an item. -/
def scanItems (s : Bytes) (first : Bool) : Series Json s :=
  match h : trim s with
  | [] => .cut .truncated
  | b :: rest =>
    have hs : rest.length < s.length := by
      have := length_trim_le s
      rw [h, List.length_cons] at this
      omega
    if b == 0x5D then ⟨[], none, some ⟨rest, hs⟩⟩
    else if first then scanItem s
    else if b == 0x2C then (scanItem rest).within (Nat.le_of_lt hs)
    else .cut .malformed
termination_by 4 * s.length + 3

/-- An item and those after it. -/
def scanItem (s : Bytes) : Series Json s :=
  have hs := length_trim_le s
  match scanValue (trim s) with
  | (item, none) => .last item
  | (item, some ⟨rest, h⟩) => ((scanItems rest false).within (by omega)).cons item
termination_by 4 * s.length + 2

/-- The members of an object, after its brace or, if one went before, after a member. -/
def scanMembers (s : Bytes) (first : Bool) : Series (Key × Json) s :=
  match h : trim s with
  | [] => .cut .truncated
  | b :: rest =>
    have hs : rest.length < s.length := by
      have := length_trim_le s
      rw [h, List.length_cons] at this
      omega
    if b == 0x7D then ⟨[], none, some ⟨rest, hs⟩⟩
    else if first then scanMember s
    else if b == 0x2C then (scanMember rest).within (Nat.le_of_lt hs)
    else .cut .malformed
termination_by 4 * s.length + 3

/-- A member and those after it. -/
def scanMember (s : Bytes) : Series (Key × Json) s :=
  match h : trim s with
  | [] => .last (.stray, .broken (.blank .truncated))
  | b :: rest =>
    have hs : rest.length < s.length := by
      have := length_trim_le s
      rw [h, List.length_cons] at this
      omega
    if b == 0x22 then
      match hk : skipText rest with
      | .error f => .last (.stray, brokenText rest f)
      | .ok after =>
        have ha := length_skipText hk
        let key := match readText rest with
          | .ok name => Key.name name
          | .error f => .unreadable f
        match hc : trim after with
        | [] => .last (key, .broken (.blank .truncated))
        | c :: value =>
          have hv : value.length < after.length := by
            have := length_trim_le after
            rw [hc, List.length_cons] at this
            omega
          if c == 0x3A then
            have ht := length_trim_le value
            match scanValue (trim value) with
            | (value, none) => .last (key, value)
            | (value, some ⟨left, hl⟩) =>
              ((scanMembers left false).within (by omega)).cons (key, value)
          else .last (key, .broken (.blank .malformed))
    else
      have ht := length_trim_le s
      .last (.stray, (scanValue (trim s)).1)
termination_by 4 * s.length + 2

end

/-- A scanned text: its value, and whether anything but blanks comes after it. -/
structure Document where
  root : Json
  trailing : Bool

/-- Scans a text. -/
def scan (s : Bytes) : Document :=
  match scanValue (trim s) with
  | (root, none) => ⟨root, false⟩
  | (root, some ⟨rest, _⟩) => ⟨root, !(trim rest).isEmpty⟩

end OpeningHours.Json
