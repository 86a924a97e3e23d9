import DocMark.Decimal.Rounded
import DocMark.Text.Case
import DocMark.Value.Shown

/-!
Slots of message templates: how an argument is written and laid out.

The letter of a slot says what kind of text the argument becomes. Its layout says how that text is cut and
filled up.
-/

namespace DocMark.Template

inductive TemplateError where
  /-- The arguments do not fit the slots. -/
  | mismatch
  /-- A number does not fit the kind of text. -/
  | outOfRange
  | notANumber
  /-- A whole number has too many digits to be written. -/
  | tooManyDigits
  | incomplete
  | incompleteKey
  | widthTooBig
  | precisionTooBig
  | unsupported (c : Char) (index : Nat)
  | missingKey (key : Text)
deriving DecidableEq, Repr

def TemplateError.message : TemplateError → Text
  | .mismatch => []
  | .outOfRange => []
  | .notANumber => "cannot convert float NaN to integer".toList
  | .tooManyDigits => Text.digitLimitMessage
  | .incomplete => "incomplete format".toList
  | .incompleteKey => "incomplete format key".toList
  | .widthTooBig => "width too big".toList
  | .precisionTooBig => "precision too big".toList
  | .unsupported c index =>
    let shown := if 31 ≤ c.toNat && c.toNat ≤ 126 then c else '?'
    "unsupported format character '".toList ++ [shown] ++ "' (0x".toList ++
      Nat.toDigits 16 c.toNat ++ ") at index ".toList ++ Text.ofNat index
  | .missingKey key => key

structure Slot where
  /-- Fill up on the right. -/
  left : Bool := false
  /-- Fill up numbers with zeros. -/
  zero : Bool := false
  /-- Put a plus sign before numbers that are not negative. -/
  plus : Bool := false
  /-- Put a space before numbers that are not negative. -/
  blank : Bool := false
  /-- Mark the base of whole numbers, and keep the point and the zeros of others. -/
  alternate : Bool := false
  width : Nat := 0
  precision : Option Nat := none

namespace Slot

def pad (s : Slot) (w : Text) : Text :=
  let fill := List.replicate (s.width - w.length) ' '
  if s.left then w ++ fill else fill ++ w

/-- Cut to the precision and fill up to the width. -/
def cut (s : Slot) (w : Text) : Text :=
  s.pad (match s.precision with
    | some n => w.take n
    | none => w)

/-- A number from its sign, the mark of its base and its digits, filled up to the width. Zeros go right
before the digits. -/
def number (s : Slot) (negative : Bool) (lead digits : Text) : Text :=
  let sign : Text :=
    if negative then ['-'] else if s.plus then ['+'] else if s.blank then [' '] else []
  let front := sign ++ lead
  if s.zero && !s.left then
    front ++ List.replicate (s.width - front.length - digits.length) '0' ++ digits
  else s.pad (front ++ digits)

/-- A whole number in a base, with at least as many digits as the precision says. -/
def whole (s : Slot) (base : Nat) (lead : String) (i : Int) : Text :=
  let digits := Nat.toDigits base i.natAbs
  s.number (i < 0) (if s.alternate then lead.toList else [])
    (List.replicate (s.precision.getD 0 - digits.length) '0' ++ digits)

/-- The same whole number with its letters in upper case. -/
def wholeUpper (s : Slot) (base : Nat) (lead : String) (i : Int) : Text :=
  Text.upper (s.whole base lead i)

/-- A whole number in decimal, unless it has too many digits. -/
def decimal (s : Slot) (i : Int) : Except TemplateError Text :=
  if (Text.ofInt? i).isSome then .ok (s.whole 10 "" i) else .error .tooManyDigits

/-- A number with a fraction, from the text of its absolute value. -/
def fraction (s : Slot) (upper : Bool) (text : Dyadic → Text) (f : Float) : Text :=
  match Dyadic.ofFloat? f with
  | some d => s.number d.negative [] (text d)
  | none =>
    let name := if f.isNaN then "nan".toList else "inf".toList
    s.number (f < 0) [] (if upper then Text.upper name else name)

def places (s : Slot) : Nat := s.precision.getD 6

end Slot

/-- A value as a whole number; fractions are cut off. -/
def wholeOf : Value → Except TemplateError Int
  | .int i => .ok i
  | .bool b => .ok (if b then 1 else 0)
  | .float f =>
    match Dyadic.ofFloat? f with
    | some d => .ok (if d.negative then -(d.whole : Int) else d.whole)
    | none => .error (if f.isNaN then .notANumber else .outOfRange)
  | _ => .error .mismatch

def exactOf : Value → Except TemplateError Int
  | .int i => .ok i
  | .bool b => .ok (if b then 1 else 0)
  | _ => .error .mismatch

def floatOf : Value → Except TemplateError Float
  | .int i => if (Float.ofInt i).isInf then .error .outOfRange else .ok (Float.ofInt i)
  | .bool b => .ok (if b then 1.0 else 0.0)
  | .float f => .ok f
  | _ => .error .mismatch

/-- A value as a character: one character, or its code point. -/
def charOf (v : Value) : Except TemplateError Char :=
  match v with
  | .str [c] => .ok c
  | v => do
    let i ← exactOf v
    if 0 ≤ i ∧ i < 0x110000 then return Char.ofNat i.toNat else throw .outOfRange

/-- A text, unless a number in it has too many digits. -/
def orTooManyDigits : Option Text → Except TemplateError Text
  | some t => .ok t
  | none => .error .tooManyDigits

/-- The text of one argument in a slot whose letter stands at `index`. -/
def Slot.fill (s : Slot) (letter : Char) (index : Nat) (v : Value) : Except TemplateError Text :=
  match letter with
  | 's' => (orTooManyDigits v.shown?).map s.cut
  | 'r' => (orTooManyDigits v.quoted?).map s.cut
  | 'a' => (orTooManyDigits v.quoted?).map fun t => s.cut (Text.asciiOnly t)
  | 'c' => (charOf v).map fun c => s.pad [c]
  | 'd' => wholeOf v >>= s.decimal
  | 'i' => wholeOf v >>= s.decimal
  | 'u' => wholeOf v >>= s.decimal
  | 'x' => (exactOf v).map (s.whole 16 "0x")
  | 'X' => (exactOf v).map (s.wholeUpper 16 "0x")
  | 'o' => (exactOf v).map (s.whole 8 "0o")
  | 'f' => (floatOf v).map (s.fraction false (Decimal.fixed s.places s.alternate))
  | 'F' => (floatOf v).map (s.fraction true (Decimal.fixed s.places s.alternate))
  | 'e' => (floatOf v).map (s.fraction false (Decimal.exponential s.places s.alternate 'e'))
  | 'E' => (floatOf v).map (s.fraction true (Decimal.exponential s.places s.alternate 'E'))
  | 'g' => (floatOf v).map (s.fraction false (Decimal.general (max 1 s.places) s.alternate 'e'))
  | 'G' => (floatOf v).map (s.fraction true (Decimal.general (max 1 s.places) s.alternate 'E'))
  | c => .error (.unsupported c index)

end DocMark.Template
