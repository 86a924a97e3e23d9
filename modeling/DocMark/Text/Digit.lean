import DocMark.Text.Basic

/-!
Decimal digits of every script, and the reading of whole numbers written with them.
-/

namespace DocMark.Text

/-- The code points of the digit zero in each script; the digits one to nine follow it. -/
def zeroPoints : List Nat :=
  [48, 1632, 1776, 1984, 2406, 2534, 2662, 2790, 2918, 3046, 3174, 3302, 3430, 3558, 3664, 3792,
    3872, 4160, 4240, 6112, 6160, 6470, 6608, 6784, 6800, 6992, 7088, 7232, 7248, 42528, 43216,
    43264, 43472, 43504, 43600, 44016, 65296, 66720, 68912, 69734, 69872, 69942, 70096, 70384,
    70736, 70864, 71248, 71360, 71472, 71904, 72016, 72784, 73040, 73120, 92768, 92864, 93008,
    120782, 120792, 120802, 120812, 120822, 123200, 123632, 125264, 130032]

def digitValue? (c : Char) : Option Nat :=
  (zeroPoints.find? fun z => z ≤ c.toNat && c.toNat < z + 10).map (c.toNat - ·)

def isDigit (c : Char) : Bool := (digitValue? c).isSome

/-- White space that may stand around a number: all but the four separators U+001C to U+001F. -/
def isNumberSpace (c : Char) : Bool := isSpace c && !(28 ≤ c.toNat && c.toNat ≤ 31)

/-- Read digits from left to right, with `acc` read so far. A single underscore may stand between two
digits; `digitBefore` says that a digit was read last. -/
def readDigits : (digitBefore : Bool) → (acc : Nat) → Text → Option Nat
  | digitBefore, acc, [] => if digitBefore then some acc else none
  | digitBefore, acc, c :: r =>
    match digitValue? c with
    | some d => readDigits true (10 * acc + d) r
    | none => if c = '_' && digitBefore then readDigits false acc r else none

/-- The most digits that a number may be written with. -/
def maxDigits : Nat := 4300

/-- What is said of a number with too many digits. Of one that was read it is said how many there are. -/
def digitLimitMessage (count : Option Nat := none) : Text :=
  "Exceeds the limit (".toList ++ ofNat maxDigits ++ " digits) for integer string conversion".toList ++
    (match count with
      | some n => ": value has ".toList ++ ofNat n ++ " digits".toList
      | none => []) ++
    "; use sys.set_int_max_str_digits() to increase the limit".toList

/-- Read a number without a sign, unless it has too many digits. -/
def readNat? (s : Text) : Option Nat :=
  if maxDigits < (s.filter isDigit).length then none else readDigits false 0 s

/-- Read a whole number: white space around it, a sign, digits of any script. -/
def readInt? (s : Text) : Option Int :=
  match trimEnd isNumberSpace (s.dropWhile isNumberSpace) with
  | '-' :: r => (readNat? r).map fun n => -(n : Int)
  | '+' :: r => (readNat? r).map Int.ofNat
  | r => (readNat? r).map Int.ofNat

end DocMark.Text
