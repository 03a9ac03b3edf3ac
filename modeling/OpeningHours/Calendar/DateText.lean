import OpeningHours.Calendar.Date
import OpeningHours.Text.Blank
import OpeningHours.Text.Number

/-!
# Dates as text

A date is written `YYYY-MM-DD`. Years outside 0..9999 carry their sign, which tells
the reader that more than four digits may follow: an unsigned year is read from at
most four digits, a signed one from all there are.

Reading is laxer than writing. Blanks may stand around every number, and the month
and the day may have one digit.
-/

namespace OpeningHours.Date

/-- A year as dates write it: four digits, or a sign and four digits or more. -/
def yearText (year : Int) : List Char :=
  let digits := Text.padded 4 year.natAbs
  if 0 ≤ year ∧ year ≤ 9999 then digits
  else (if year < 0 then '-' else '+') :: digits

/-- The characters of a written date. -/
def toChars (d : Date) : List Char :=
  yearText d.year ++ '-' :: (Text.padded 2 d.month ++ '-' :: Text.padded 2 d.day)

/-- A date as `YYYY-MM-DD`. -/
def toText (d : Date) : String := String.ofList d.toChars

/-- Reads a year: a sign lifts the limit of four digits. -/
def readYear? (s : List Char) : Option (Int × List Char) :=
  match s with
  | '-' :: r => (Text.readNumber? none r).map fun (n, rest) => (-(n : Int), rest)
  | '+' :: r => (Text.readNumber? none r).map fun (n, rest) => ((n : Int), rest)
  | _ => (Text.readNumber? (some 4) s).map fun (n, rest) => ((n : Int), rest)

/-- Passes a hyphen, with the blanks around it. -/
def passHyphen? (s : List Char) : Option (List Char) :=
  match Text.trimStart s with
  | '-' :: r => some (Text.trimStart r)
  | _ => none

/-- Reads a date from the characters of a text. -/
def ofChars? (s : List Char) : Option Date := do
  let (year, s) ← readYear? (Text.trimStart s)
  let (month, s) ← Text.readNumber? (some 2) (← passHyphen? s)
  let (day, s) ← Text.readNumber? (some 2) (← passHyphen? s)
  if (Text.trimStart s).isEmpty then ofYmd? year month day else none

/-- Reads a date from a text. -/
def ofText? (s : String) : Option Date := ofChars? s.toList

end OpeningHours.Date
