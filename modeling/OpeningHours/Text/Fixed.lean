/-!
# Floating-point numbers with a fixed number of places

A finite binary floating-point number is written with so many decimals after the
point. The decimal nearest to its exact value is taken, and of two equally near ones
the one that ends in an even digit; the sign is that of the number, zero included.
-/

namespace OpeningHours.Text

/-- The quotient nearest to a fraction; a half goes to the even neighbour. -/
def roundDiv (num den : Nat) : Nat :=
  let q := num / den
  let twice := 2 * (num % den)
  if twice < den ∨ (twice = den ∧ q % 2 = 0) then q else q + 1

/-- The exact size of a finite number as a fraction. -/
def magnitude (x : Float) : Nat × Nat :=
  let bits := x.toBits.toNat
  let exponent := (bits >>> 52) % 0x800
  let fraction := bits % 0x10000000000000
  let significand := if exponent = 0 then fraction else fraction + 0x10000000000000
  -- A number is its significand times two to the power of its exponent less 1075.
  let power := max exponent 1
  if 1075 ≤ power then (significand <<< (power - 1075), 1)
  else (significand, 1 <<< (1075 - power))

/-- A number with a fixed count of decimals. -/
def fixed (places : Nat) (x : Float) : String :=
  let (num, den) := magnitude x
  let scale := Nat.pow 10 places
  let scaled := roundDiv (num * scale) den
  let sign := if x.toBits.toNat >>> 63 = 1 then "-" else ""
  let decimals := (Nat.toDigits 10 (scaled % scale)).leftpad places '0'
  sign ++ toString (scaled / scale) ++ "." ++ String.ofList decimals

end OpeningHours.Text
