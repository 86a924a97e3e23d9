import DocMark.Decimal.Dyadic
import DocMark.Text.Basic

/-!
The shortest decimal text of a floating point number.

Of all decimals that read back as the number, those with the fewest digits are taken, and of these the
nearest one. Numbers from `10 ^ -4` up to `10 ^ 16` are written positionally and always have a point.
-/

namespace DocMark

/-- The positive fractions that read back as one number, as `low / den` to `high / den`. -/
structure Interval where
  low : Nat
  mid : Nat
  high : Nat
  den : Nat
  /-- Both ends belong to the interval. -/
  closed : Bool

namespace Interval

/-- The fractions nearer to a number than to any other. -/
def ofDyadic (d : Dyadic) : Interval :=
  let unit := Nat.pow 2 d.exponent.toNat
  { low := (4 * d.mantissa - (if d.narrowBelow then 1 else 2)) * unit
    mid := 4 * d.mantissa * unit
    high := (4 * d.mantissa + 2) * unit
    den := 4 * d.den
    closed := d.mantissa % 2 == 0 }

/-- The multiple of `10 ^ power` in the interval that is nearest to the middle. -/
def candidate? (x : Interval) (power : Int) : Option Nat :=
  let up := Nat.pow 10 (-power).toNat
  let unit := x.den * Nat.pow 10 power.toNat
  let inside (n : Nat) : Bool :=
    if x.closed then x.low * up ≤ n * unit && n * unit ≤ x.high * up
    else x.low * up < n * unit && n * unit < x.high * up
  let d := x.mid * up / unit
  if inside d && inside (d + 1) then some (roundHalfEven (x.mid * up) unit)
  else if inside d then some d
  else if inside (d + 1) then some (d + 1)
  else none

/-- The fewest digits of a decimal in the interval, and the power of ten of the last one. -/
def shortest (x : Interval) : Nat × Int :=
  let top := leadingPower x.mid x.den
  ((List.range 18).findSome? fun (k : Nat) =>
    (x.candidate? (top - k)).map fun n => (n, top - k)).getD (0, 0)

end Interval

namespace Decimal

/-- The texts of the numbers that have no digits. -/
structure Special where
  infinity : Text
  nan : Text

/-- Place the point `point` digits after the start of the digits. -/
def positional (digits : Text) (point : Int) : Text :=
  if point ≤ 0 then "0.".toList ++ List.replicate (-point).toNat '0' ++ digits
  else if digits.length ≤ point then
    digits ++ List.replicate (point.toNat - digits.length) '0' ++ ".0".toList
  else digits.take point.toNat ++ '.' :: digits.drop point.toNat

/-- Digits with an exponent of at least two figures. -/
def scientific (digits : Text) (power : Int) : Text :=
  digits.take 1 ++ (if digits.length ≤ 1 then [] else '.' :: digits.drop 1) ++ 'e' ::
    (if power < 0 then '-' else '+') :: Text.padded 2 power.natAbs

/-- Write digits so that the first stands for the given power of ten. -/
def write (digits : Text) (power : Int) : Text :=
  if -4 ≤ power ∧ power < 16 then positional digits (power + 1) else scientific digits power

/-- The shortest text that reads back as the number. -/
def ofFloat (special : Special) (f : Float) : Text :=
  match Dyadic.ofFloat? f with
  | none => if f.isNaN then special.nan else if f < 0 then '-' :: special.infinity else special.infinity
  | some d =>
    let unsigned :=
      if d.mantissa = 0 then "0.0".toList
      else
        let (n, last) := (Interval.ofDyadic d).shortest
        let digits := Text.ofNat n
        write (Text.trimEnd (· == '0') digits) (last + digits.length - 1)
    if d.negative then '-' :: unsigned else unsigned

/-- The number nearest to `mantissa · 10 ^ power`. -/
def toFloat (negative : Bool) (mantissa : Nat) (power : Int) : Float :=
  let size : Int := (Text.ofNat mantissa).length + power
  let f :=
    if mantissa = 0 ∨ size < -400 then 0.0
    else if 400 < size then 1.0 / 0.0
    else Float.ofScientific mantissa (power < 0) power.natAbs
  if negative then -f else f

end Decimal

end DocMark
