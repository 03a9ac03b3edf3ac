/-!
# Numbers of JSON

A numeral is read as an integer when it has neither a fraction nor an exponent and
fits 64 bits, and as a binary floating-point number otherwise.

For the latter the digits are gathered into a significand of at most 64 bits, whose
further digits only count, and the significand is scaled by a power of ten, at most
308 places in one step. A number too large for the format is refused.
-/

namespace OpeningHours.Json

/-- The value of a numeral. -/
inductive Number where
  | integer (value : Int)
  | real (value : Float)

/-- The number as a floating-point number. -/
def Number.toFloat : Number → Float
  | integer value => if 0 ≤ value then value.toNat.toUInt64.toFloat else -(value.natAbs.toUInt64.toFloat)
  | real value => value

/-- The exponent that a numeral is written with. -/
structure Exponent where
  negative : Bool
  digits : List Nat

/-- A numeral, in its parts. Digits are numbers below ten. -/
structure Numeral where
  negative : Bool
  whole : List Nat
  fraction? : Option (List Nat)
  exponent? : Option Exponent

/-- Digits taken together, up to 64 bits, and how many places they stand away from the point. -/
structure Significand where
  value : Nat := 0
  places : Int := 0

namespace Significand

/-- The largest significand is one below this. -/
def limit : Nat := UInt64.size

/-- Takes in the digits before the point. Once a digit does not fit, it and all others only count. -/
def takeWhole (s : Significand) : List Nat → Significand
  | [] => s
  | d :: rest =>
    if 10 * s.value + d < limit then takeWhole { s with value := 10 * s.value + d } rest
    else { s with places := s.places + (rest.length + 1) }

/-- Takes in the digits after the point, up to one that does not fit. -/
def takeFraction (s : Significand) : List Nat → Significand
  | [] => s
  | d :: rest =>
    if 10 * s.value + d < limit then takeFraction ⟨10 * s.value + d, s.places - 1⟩ rest
    else s

end Significand

/-- Ten to a power of at most 308. -/
def powerOfTen (n : Nat) : Float := Float.ofScientific 1 false n

/--
A number times a power of ten, if it is finite. Scaling down goes by 308 places at a
time, and stops at zero.
-/
def scale? (x : Float) (places : Int) : Option Float :=
  if places < -308 then
    if x == 0 then some x else scale? (x / powerOfTen 308) (places + 308)
  else if places < 0 then some (x / powerOfTen places.natAbs)
  else if places ≤ 308 then
    let y := x * powerOfTen places.natAbs
    if y.isInf then none else some y
  else if x == 0 then some x
  else none
termination_by (-places).toNat

namespace Numeral

/-- The digits of a numeral as one significand. -/
def significand (n : Numeral) : Significand :=
  (Significand.takeWhole {} n.whole).takeFraction (n.fraction?.getD [])

/-- The largest exponent that is looked at. -/
def exponentLimit : Nat := 0x80000000

/-- The numeral as a floating-point number, if it is in range. -/
def toFloat? (n : Numeral) : Option Float :=
  let s := n.significand
  let x := s.value.toUInt64.toFloat
  let size := match n.exponent? with
    | none => scale? x s.places
    | some e =>
      let value : Nat := e.digits.foldl (fun v d => 10 * v + d) 0
      if value < exponentLimit then scale? x (if e.negative then s.places - (value : Int) else s.places + (value : Int))
      else if s.value = 0 ∨ e.negative then some 0
      else none
  size.map fun y => if n.negative then -y else y

/-- The integer that a numeral stands for, if it is one of 64 bits. There is no negative zero. -/
def toInt? (n : Numeral) : Option Int :=
  if n.fraction?.isSome ∨ n.exponent?.isSome then none
  else
    let value : Nat := n.whole.foldl (fun v d => 10 * v + d) 0
    if n.negative then
      if 0 < value ∧ value ≤ 0x8000000000000000 then some (-(value : Int)) else none
    else if value < UInt64.size then some (value : Int)
    else none

/-- The value of a numeral, if it is in range. -/
def number? (n : Numeral) : Option Number :=
  match n.toInt? with
  | some value => some (.integer value)
  | none => n.toFloat?.map .real

end Numeral

end OpeningHours.Json
