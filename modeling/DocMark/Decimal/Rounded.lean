import DocMark.Decimal.Dyadic
import DocMark.Text.Basic

/-!
Decimal text of a chosen length: with a number of decimal places, or with a number of significant digits.

Values are rounded exactly, and a half goes to the even neighbour. Signs are left to the caller.
-/

namespace DocMark.Decimal

/-- Digits before and after the point. A point without digits behind it is written only if it is kept. -/
def withPoint (keepPoint : Bool) (whole fraction : Text) : Text :=
  whole ++ if fraction.isEmpty && !keepPoint then [] else '.' :: fraction

/-- The absolute value with a fixed number of decimal places. -/
def fixed (places : Nat) (keepPoint : Bool) (d : Dyadic) : Text :=
  let digits := Text.padded (places + 1) (roundHalfEven (d.num * Nat.pow 10 places) d.den)
  let cut := digits.length - places
  withPoint keepPoint (digits.take cut) (digits.drop cut)

/-- The first `count` digits of the absolute value, and the power of ten of the leading one. -/
def significant (count : Nat) (d : Dyadic) : Text × Int :=
  if d.mantissa = 0 then (List.replicate count '0', 0)
  else
    let power := leadingPower d.num d.den
    let shift := (count : Int) - 1 - power
    let n := roundHalfEven (d.num * Nat.pow 10 shift.toNat) (d.den * Nat.pow 10 (-shift).toNat)
    if n = Nat.pow 10 count then (Text.ofNat (n / 10), power + 1) else (Text.ofNat n, power)

/-- An exponent: its mark, its sign and at least two digits. -/
def exponent (mark : Char) (power : Int) : Text :=
  mark :: (if power < 0 then '-' else '+') :: Text.padded 2 power.natAbs

/-- The absolute value with one digit before the point, `places` digits behind it, and an exponent. -/
def exponential (places : Nat) (keepPoint : Bool) (mark : Char) (d : Dyadic) : Text :=
  let (digits, power) := significant (places + 1) d
  withPoint keepPoint (digits.take 1) (digits.drop 1) ++ exponent mark power

/-- The absolute value with `count` significant digits: positional when the exponent is at least -4 and
below `count`, else with an exponent. Zeros at the end are dropped unless the point is kept. -/
def general (count : Nat) (keepPoint : Bool) (mark : Char) (d : Dyadic) : Text :=
  let (digits, power) := significant count d
  let trim (fraction : Text) : Text :=
    if keepPoint then fraction else Text.trimEnd (· == '0') fraction
  if power < -4 ∨ count ≤ power then
    withPoint keepPoint (digits.take 1) (trim (digits.drop 1)) ++ exponent mark power
  else if power < 0 then
    withPoint keepPoint ['0'] (trim (List.replicate ((-power).toNat - 1) '0' ++ digits))
  else
    withPoint keepPoint (digits.take (power.toNat + 1)) (trim (digits.drop (power.toNat + 1)))

end DocMark.Decimal
