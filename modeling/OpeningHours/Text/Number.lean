/-!
# Numbers in decimal digits

Writing a number with at least so many digits, and reading the digits at the head
of a text, at most so many of them when a limit is given.
-/

namespace OpeningHours.Text

/-- The decimal digits of a number, with zeros in front up to a width. -/
def padded (width n : Nat) : List Char := (Nat.toDigits 10 n).leftpad width '0'

/-- The number that a list of digits stands for. -/
def digitsValue (digits : List Char) : Nat :=
  digits.foldl (fun n c => 10 * n + (c.toNat - '0'.toNat)) 0

/-- The digits at the head of a text. A limit bounds how many are looked at. -/
def leadingDigits (limit : Option Nat) (s : List Char) : List Char :=
  match limit with
  | some n => (s.take n).takeWhile Char.isDigit
  | none => s.takeWhile Char.isDigit

/-- Reads the number at the head of a text, which needs one digit at least, and gives the rest. -/
def readNumber? (limit : Option Nat) (s : List Char) : Option (Nat × List Char) :=
  match leadingDigits limit s with
  | [] => none
  | digits => some (digitsValue digits, s.drop digits.length)

end OpeningHours.Text
