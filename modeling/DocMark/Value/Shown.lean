import DocMark.Decimal.Shortest
import DocMark.Text.Digit
import DocMark.Text.Quoted
import DocMark.Value.Basic

/-!
Values as they stand in messages: texts plainly on their own, and quoted inside other values.

A whole number with too many digits has no text, and neither has a value that holds one. Values may be nested to
any depth.
-/

namespace DocMark

/-- A whole number in decimal, unless it has too many digits. -/
def Text.ofInt? (i : Int) : Option Text :=
  if maxDigits < (ofNat i.natAbs).length then none else some (ofInt i)

def Value.special : Decimal.Special := ⟨"inf".toList, "nan".toList⟩

mutual

def Value.quoted? : Value → Option Text
  | .null => some "None".toList
  | .bool b => some (if b then "True".toList else "False".toList)
  | .int i => Text.ofInt? i
  | .float f => some (Decimal.ofFloat Value.special f)
  | .str s => some (Text.quoted s)
  | .arr xs => (Value.quotedItems? xs).map fun items => '[' :: Text.joinWith ", ".toList items ++ [']']
  | .obj fs =>
    (Value.quotedFields? fs).map fun fields => '\x7b' :: Text.joinWith ", ".toList fields ++ ['\x7d']
  | .other _ quoted => some quoted

def Value.quotedItems? : List Value → Option (List Text)
  | [] => some []
  | v :: r => do return (← v.quoted?) :: (← Value.quotedItems? r)

def Value.quotedFields? : List (Text × Value) → Option (List Text)
  | [] => some []
  | (k, v) :: r => do return (Text.quoted k ++ ": ".toList ++ (← v.quoted?)) :: (← Value.quotedFields? r)

end

/-- The text of a value on its own. -/
def Value.shown? : Value → Option Text
  | .str s => some s
  | .other shown _ => some shown
  | v => v.quoted?

end DocMark
