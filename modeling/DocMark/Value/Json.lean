import DocMark.Decimal.Shortest
import DocMark.Text.Quoted
import DocMark.Value.Basic

/-!
Values as JSON text.

Written text holds ASCII characters only: other characters are escaped by their code units, two of them
above U+FFFF. Numbers with a fraction are written with the fewest digits that read back.
-/

namespace DocMark

/-- What stands between the parts of arrays and objects. -/
structure JsonLayout where
  comma : Text
  colon : Text

namespace JsonLayout

def compact : JsonLayout := ⟨",".toList, ":".toList⟩

def spaced : JsonLayout := ⟨", ".toList, ": ".toList⟩

end JsonLayout

namespace Json

def unitEscape (n : Nat) : Text := "\\u".toList ++ Text.hex 4 n

def escapeChar (c : Char) : Text :=
  let n := c.toNat
  if c = '"' then "\\\"".toList
  else if c = '\\' then "\\\\".toList
  else if c = '\n' then "\\n".toList
  else if c = '\r' then "\\r".toList
  else if c = '\t' then "\\t".toList
  else if n = 8 then "\\b".toList
  else if n = 12 then "\\f".toList
  else if 0x20 ≤ n ∧ n < 0x7F then [c]
  else if n < 0x10000 then unitEscape n
  else unitEscape (0xD800 + (n - 0x10000) / 0x400) ++ unitEscape (0xDC00 + (n - 0x10000) % 0x400)

def string (s : Text) : Text := '"' :: s.flatMap escapeChar ++ ['"']

def special : Decimal.Special := ⟨"Infinity".toList, "NaN".toList⟩

end Json

mutual

def Value.json (l : JsonLayout) : Value → Text
  | .null => "null".toList
  | .bool b => if b then "true".toList else "false".toList
  | .int i => Text.ofInt i
  | .float f => Decimal.ofFloat Json.special f
  | .str s => Json.string s
  | .arr xs => '[' :: Value.jsonItems l xs ++ [']']
  | .obj fs => '\x7b' :: Value.jsonFields l fs ++ ['\x7d']
  | .other shown _ => Json.string shown

def Value.jsonItems (l : JsonLayout) : List Value → Text
  | [] => []
  | [v] => v.json l
  | v :: w :: r => v.json l ++ l.comma ++ Value.jsonItems l (w :: r)

def Value.jsonFields (l : JsonLayout) : List (Text × Value) → Text
  | [] => []
  | [(k, v)] => Json.string k ++ l.colon ++ v.json l
  | (k, v) :: f :: r => Json.string k ++ l.colon ++ v.json l ++ l.comma ++ Value.jsonFields l (f :: r)

end

namespace Json

/-- White space between tokens. -/
def isGap (c : Char) : Bool := c == ' ' || c == '\n' || c == '\r' || c == '\t'

def skipGap (s : Text) : Text := s.dropWhile isGap

def hexValue? (c : Char) : Option Nat :=
  if '0' ≤ c && c ≤ '9' then some (c.toNat - 48)
  else if 'a' ≤ c && c ≤ 'f' then some (c.toNat - 87)
  else if 'A' ≤ c && c ≤ 'F' then some (c.toNat - 55)
  else none

def hexNumber? (s : Text) : Option Nat :=
  if s.isEmpty then none
  else s.foldlM (fun acc c => (hexValue? c).map fun d => 16 * acc + d) 0

def shortEscape? (c : Char) : Option Char :=
  match c with
  | '"' => some '"'
  | '\\' => some '\\'
  | '/' => some '/'
  | 'b' => some (Char.ofNat 8)
  | 'f' => some (Char.ofNat 12)
  | 'n' => some '\n'
  | 'r' => some '\r'
  | 't' => some '\t'
  | _ => none

/-- The character behind `\u`, and the text after it. Two units of a pair make one character. -/
def unitChar? (s : Text) : Option (Char × Text) := do
  let hi ← hexNumber? (s.take 4)
  let rest := s.drop 4
  if 0xD800 ≤ hi ∧ hi < 0xDC00 then
    let low ← "\\u".toList.isPrefixOf? rest
    let lo ← hexNumber? (low.take 4)
    return (Char.ofNat (0x10000 + (hi - 0xD800) * 0x400 + (lo - 0xDC00)), low.drop 4)
  else return (Char.ofNat hi, rest)

/-- The characters of a string up to its closing quote, and the text after it. -/
def stringBody? : (fuel : Nat) → Text → Option (Text × Text)
  | 0, _ => none
  | _ + 1, [] => none
  | n + 1, c :: r =>
    if c = '"' then some ([], r)
    else if c = '\\' then
      match r with
      | 'u' :: r => do
        let (d, rest) ← unitChar? r
        let (body, rest) ← stringBody? n rest
        return (d :: body, rest)
      | e :: r => do
        let d ← shortEscape? e
        let (body, rest) ← stringBody? n r
        return (d :: body, rest)
      | [] => none
    else (stringBody? n r).map fun (body, rest) => (c :: body, rest)

def isNumberChar (c : Char) : Bool :=
  ('0' ≤ c && c ≤ '9') || c == '-' || c == '+' || c == '.' || c == 'e' || c == 'E'

def digits? (s : Text) : Option Nat :=
  if s.isEmpty then none
  else s.foldlM (fun acc c => if '0' ≤ c && c ≤ '9' then some (10 * acc + (c.toNat - 48)) else none) 0

def exponent? (s : Text) : Option Int :=
  match s with
  | '-' :: r => (digits? r).map fun n => -(n : Int)
  | '+' :: r => (digits? r).map Int.ofNat
  | r => (digits? r).map Int.ofNat

/-- A number with a fraction or an exponent, from its digits. -/
def fraction? (negative : Bool) (s : Text) : Option Value := do
  let isMark (c : Char) : Bool := c == 'e' || c == 'E'
  let plain := s.takeWhile (fun c => !isMark c)
  let power ← match s.dropWhile (fun c => !isMark c) with
    | _ :: r => exponent? r
    | [] => some 0
  let before := plain.takeWhile (· != '.')
  let after := (plain.dropWhile (· != '.')).drop 1
  let mantissa ← digits? (before ++ after)
  return .float (Decimal.toFloat negative mantissa (power - after.length))

/-- A number: one with a point or an exponent has a fraction, and any other is whole. -/
def number? (s : Text) : Option Value :=
  let negative := Text.startsWith ['-'] s
  let r := if negative then s.drop 1 else s
  match digits? r with
  | some n => some (.int (if negative then -(n : Int) else n))
  | none => fraction? negative r

def names : List (Text × Value) :=
  [("null".toList, .null), ("true".toList, .bool true), ("false".toList, .bool false),
    ("NaN".toList, .float (0.0 / 0.0)), ("Infinity".toList, .float (1.0 / 0.0)),
    ("-Infinity".toList, .float (-1.0 / 0.0))]

def atom? (s : Text) : Option (Value × Text) :=
  match names.findSome? fun (w, v) => (w.isPrefixOf? s).map fun r => (v, r) with
  | some found => some found
  | none => (number? (s.takeWhile isNumberChar)).map fun v => (v, s.dropWhile isNumberChar)

mutual

def value? : (fuel : Nat) → Text → Option (Value × Text)
  | 0, _ => none
  | n + 1, s =>
    match skipGap s with
    | '"' :: r => (stringBody? (r.length + 1) r).map fun (body, rest) => (.str body, rest)
    | '[' :: r =>
      match skipGap r with
      | ']' :: rest => some (.arr [], rest)
      | r => (items? n r).map fun (xs, rest) => (.arr xs, rest)
    | '\x7b' :: r =>
      match skipGap r with
      | '\x7d' :: rest => some (.obj [], rest)
      | r => (fields? n [] r).map fun (fs, rest) => (.obj fs, rest)
    | r => atom? r

def items? : (fuel : Nat) → Text → Option (List Value × Text)
  | 0, _ => none
  | n + 1, s =>
    match value? n s with
    | some (v, r) =>
      match skipGap r with
      | ',' :: r => (items? n r).map fun (xs, rest) => (v :: xs, rest)
      | ']' :: rest => some ([v], rest)
      | _ => none
    | none => none

/-- The fields of an object up to its closing brace, after the fields read so far, and the text after
it. -/
def fields? : (fuel : Nat) → (read : Fields) → Text → Option (Fields × Text)
  | 0, _, _ => none
  | n + 1, read, s =>
    match skipGap s with
    | '"' :: r =>
      match stringBody? (r.length + 1) r with
      | some (key, r) =>
        match skipGap r with
        | ':' :: r =>
          match value? n r with
          | some (v, r) =>
            let read := Fields.set key v read
            match skipGap r with
            | ',' :: r => fields? n read r
            | '\x7d' :: rest => some (read, rest)
            | _ => none
          | none => none
        | _ => none
      | none => none
    | _ => none

end

def parse? (s : Text) : Option Value :=
  match value? (2 * s.length + 2) s with
  | some (v, rest) => if (skipGap rest).isEmpty then some v else none
  | none => none

end Json

end DocMark
