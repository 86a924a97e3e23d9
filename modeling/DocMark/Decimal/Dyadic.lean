/-!
Floating point numbers as exact fractions.

A finite number is a mantissa times a power of two. Sums of places, halves and neighbours are then
questions about natural numbers.
-/

namespace DocMark

/-- The number `± mantissa · 2 ^ exponent`. -/
structure Dyadic where
  negative : Bool
  mantissa : Nat
  exponent : Int
  /-- The next smaller number is only half as far away as the next larger one. -/
  narrowBelow : Bool
deriving DecidableEq, Repr

namespace Dyadic

/-- The exact value of a finite floating point number. -/
def ofFloat? (f : Float) : Option Dyadic :=
  let bits := f.toBits.toNat
  let fraction : Nat := bits % Nat.pow 2 52
  let power : Nat := bits / Nat.pow 2 52 % Nat.pow 2 11
  let negative := bits / Nat.pow 2 63 == 1
  if power = 2047 then none
  else if power = 0 then some ⟨negative, fraction, -1074, false⟩
  else some ⟨negative, Nat.pow 2 52 + fraction, (power : Int) - 1075, fraction == 0 && power > 1⟩

def num (d : Dyadic) : Nat := d.mantissa * Nat.pow 2 d.exponent.toNat

def den (d : Dyadic) : Nat := Nat.pow 2 (-d.exponent).toNat

def whole (d : Dyadic) : Nat := d.num / d.den

end Dyadic

/-- A quotient rounded to the nearest natural number; a half goes to the even neighbour. -/
def roundHalfEven (num den : Nat) : Nat :=
  let q := num / den
  let r := num % den
  if 2 * r < den then q else if den < 2 * r then q + 1 else if q % 2 = 0 then q else q + 1

/-- The power of ten of the leading digit of a positive fraction. -/
def leadingPower (num den : Nat) : Int :=
  if den ≤ num then (Nat.toDigits 10 (num / den)).length - 1
  else
    let k := (Nat.toDigits 10 (den / num)).length
    if den ≤ num * Nat.pow 10 (k - 1) then -((k - 1 : Nat) : Int) else -(k : Int)

/-- A floating point number rounded to the given number of decimal places. Other than finite numbers
stay as they are. -/
def roundToPlaces (places : Nat) (f : Float) : Float :=
  match Dyadic.ofFloat? f with
  | none => f
  | some d =>
    let r := Float.ofScientific (roundHalfEven (d.num * Nat.pow 10 places) d.den) true places
    if d.negative then -r else r

def roundToInt (f : Float) : Int :=
  match Dyadic.ofFloat? f with
  | none => 0
  | some d =>
    let n : Int := roundHalfEven d.num d.den
    if d.negative then -n else n

end DocMark
