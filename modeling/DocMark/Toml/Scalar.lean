import DocMark.Text.Digit
import DocMark.Value.Json

/-!
Strings, keys and numbers of settings files.

Every reader takes the text from its first character on, and gives what it read and the text after it, or
nothing when the text is malformed. A decimal number may also be well formed and yet have too many digits,
which ends the reading of the whole file.
-/

namespace DocMark.Toml

inductive Problem where
  | malformed (reason : Text)
  /-- The reading was given up, with a fault of some kind. -/
  | fault (kind message : Text)
deriving DecidableEq, Repr

abbrev Reader := Text → Except Problem Fields

def malformed {α : Type} : Except Problem α := .error (.malformed "Invalid document".toList)

/-- What was read; nothing stands for malformed text. -/
def orMalformed {α : Type} : Option α → Except Problem α
  | some a => .ok a
  | none => malformed

/-- A space or a tab, the only white space inside a line. -/
def isBlank (c : Char) : Bool := c == ' ' || c == '\t'

def skipBlanks (s : Text) : Text := s.dropWhile isBlank

/-- A control character other than a tab: not allowed in comments and strings. -/
def isControl (c : Char) : Bool := (c.toNat < 32 && c != '\t') || c.toNat == 127

/-- A control character that is not allowed in a string of several lines. -/
def isControlInBlock (c : Char) : Bool := isControl c && c != '\n'

/-- The text up to a mark and the text after it. No character before the mark may be forbidden. -/
def upTo? (mark : Text) (forbidden : Char → Bool) : Text → Option (Text × Text)
  | [] => none
  | c :: r =>
    match mark.isPrefixOf? (c :: r) with
    | some rest => some ([], rest)
    | none =>
      if forbidden c then none
      else (upTo? mark forbidden r).map fun (body, rest) => (c :: body, rest)

def hexChar? (size : Nat) (s : Text) : Option (Char × Text) := do
  let digits := s.take size
  if digits.length < size then failure
  let n ← Json.hexNumber? digits
  if n < 0xD800 ∨ (0xE000 ≤ n ∧ n < 0x110000) then return (Char.ofNat n, s.drop size) else failure

def shortEscape? (c : Char) : Option Char :=
  match c with
  | 'b' => some (Char.ofNat 8)
  | 't' => some '\t'
  | 'n' => some '\n'
  | 'f' => some (Char.ofNat 12)
  | 'r' => some '\r'
  | '"' => some '"'
  | '\\' => some '\\'
  | _ => none

/-- What an escape stands for, from just after its backslash. In a string of several lines a backslash
at the end of a line hides all white space up to the next character. -/
def escape? (block : Bool) (s : Text) : Option (Text × Text) :=
  match s with
  | [] => none
  | 'u' :: r => (hexChar? 4 r).map fun (c, rest) => ([c], rest)
  | 'U' :: r => (hexChar? 8 r).map fun (c, rest) => ([c], rest)
  | c :: r =>
    if block && (isBlank c || c == '\n') then
      match if c == '\n' then '\n' :: r else skipBlanks r with
      | [] => some ([], [])
      | d :: rest =>
        if d = '\n' then some ([], rest.dropWhile fun c => isBlank c || c == '\n') else none
    else (shortEscape? c).map fun d => ([d], r)

/-- The characters of a string with escapes, up to its closing quotes. -/
def basicBody? (block : Bool) : (fuel : Nat) → Text → Option (Text × Text)
  | 0, _ => none
  | _ + 1, [] => none
  | n + 1, c :: r =>
    match (if block then "\"\"\"" else "\"").toList.isPrefixOf? (c :: r) with
    | some rest => some ([], rest)
    | none =>
      if c = '\\' then
        match escape? block r with
        | some (w, rest) => (basicBody? block n rest).map fun (body, rest) => (w ++ body, rest)
        | none => none
      else if (if block then isControlInBlock c else isControl c) then none
      else (basicBody? block n r).map fun (body, rest) => (c :: body, rest)

/-- A string of one line with escapes, from just after its opening quote. -/
def basic? (s : Text) : Option (Text × Text) := basicBody? false (s.length + 1) s

/-- A string of one line without escapes, from just after its opening quote. -/
def literal? (s : Text) : Option (Text × Text) := upTo? "'".toList isControl s

/-- Up to two quotes may stand before the three that close a string of several lines. -/
def extraQuotes (quote : Char) : Text × Text → Text × Text
  | (body, rest) =>
    let extra := ((rest.take 2).takeWhile (· == quote)).length
    (body ++ List.replicate extra quote, rest.drop extra)

/-- The text after a line feed that directly follows the opening quotes. -/
def dropFirstNewline (s : Text) : Text :=
  match s with
  | '\n' :: r => r
  | _ => s

/-- A string of several lines with escapes, from just after its opening quotes. -/
def basicBlock? (s : Text) : Option (Text × Text) :=
  (basicBody? true (s.length + 1) (dropFirstNewline s)).map (extraQuotes '"')

/-- A string of several lines without escapes, from just after its opening quotes. -/
def literalBlock? (s : Text) : Option (Text × Text) :=
  (upTo? "'''".toList isControlInBlock (dropFirstNewline s)).map (extraQuotes '\'')

def isBare (c : Char) : Bool :=
  Text.isLetter c || ('0' ≤ c && c ≤ '9') || c == '-' || c == '_'

def keyPart? (s : Text) : Option (Text × Text) :=
  match s with
  | '\'' :: r => literal? r
  | '"' :: r => basic? r
  | _ =>
    match s.takeWhile isBare with
    | [] => none
    | w => some (w, s.dropWhile isBare)

/-- The parts of a key, with points between them, and the text after the blanks behind it. -/
def key? : (fuel : Nat) → Text → Option (List Text × Text)
  | 0, _ => none
  | n + 1, s =>
    match keyPart? s with
    | some (part, r) =>
      match skipBlanks r with
      | '.' :: rest => (key? n (skipBlanks rest)).map fun (parts, rest) => (part :: parts, rest)
      | rest => some ([part], rest)
    | none => none

/-- Digits of a class, with single underscores between them: their text without the underscores, and the
text after them. `digitBefore` says that a digit was read last. -/
def digitsFrom (p : Char → Bool) : (digitBefore : Bool) → Text → Text × Text
  | _, [] => ([], [])
  | digitBefore, c :: r =>
    if p c then
      let (w, rest) := digitsFrom p true r
      (c :: w, rest)
    else if digitBefore && c == '_' && r.head?.any p then digitsFrom p false r
    else ([], c :: r)

def digitRun (p : Char → Bool) (s : Text) : Text × Text := digitsFrom p false s

def isDecimal (c : Char) : Bool := '0' ≤ c && c ≤ '9'

def digitsValue (base : Nat) (w : Text) : Nat :=
  w.foldl (fun acc c => base * acc + (Json.hexValue? c).getD 0) 0

def based? (s : Text) : Option (Value × Text) :=
  let read (base : Nat) (p : Char → Bool) (r : Text) : Option (Value × Text) :=
    match digitRun p r with
    | ([], _) => none
    | (w, rest) => some (.int (digitsValue base w), rest)
  match s with
  | 'x' :: r => read 16 (fun c => (Json.hexValue? c).isSome) r
  | 'b' :: r => read 2 (fun c => c == '0' || c == '1') r
  | 'o' :: r => read 8 (fun c => '0' ≤ c && c ≤ '7') r
  | _ => none

def fractionDigits (s : Text) : Text × Text :=
  match s with
  | '.' :: r =>
    match digitRun isDecimal r with
    | ([], _) => ([], s)
    | found => found
  | _ => ([], s)

def exponent? (s : Text) : Option (Int × Text) :=
  match s with
  | c :: r =>
    if c = 'e' ∨ c = 'E' then
      let (negative, r) := match r with
        | '-' :: q => (true, q)
        | '+' :: q => (false, q)
        | q => (false, q)
      match digitRun isDecimal r with
      | ([], _) => none
      | (w, rest) =>
        let n : Int := digitsValue 10 w
        some (if negative then -n else n, rest)
    else none
  | [] => none

/-- A decimal whole number, unless it has too many digits. -/
def whole (negative : Bool) (digits : Text) : Except Problem Value :=
  if Text.maxDigits < digits.length then
    .error (.fault "ValueError".toList (Text.digitLimitMessage digits.length))
  else
    let n : Int := digitsValue 10 digits
    .ok (.int (if negative then -n else n))

/-- A decimal number without its sign: whole, or with a fraction, an exponent or both. -/
def decimal (negative : Bool) (s : Text) : Except Problem (Value × Text) := do
  let (digits, rest) ← match s with
    | '0' :: r => .ok (['0'], r)
    | c :: _ => if isDecimal c then .ok (digitRun isDecimal s) else malformed
    | [] => malformed
  let (fraction, rest) := fractionDigits rest
  let mantissa := digitsValue 10 (digits ++ fraction)
  match exponent? rest with
  | some (e, rest) => return (.float (Decimal.toFloat negative mantissa (e - fraction.length)), rest)
  | none =>
    if fraction.isEmpty then return (← whole negative digits, rest)
    else return (.float (Decimal.toFloat negative mantissa (-fraction.length)), rest)

def number (s : Text) : Except Problem (Value × Text) :=
  let other : Option (Value × Text) := match s with
    | '0' :: r => based? r
    | _ => none
  match other with
  | some found => .ok found
  | none =>
    match s with
    | '-' :: r => decimal true r
    | '+' :: r => decimal false r
    | _ => decimal false s

def names : List (Text × Value) :=
  let inf : Float := 1.0 / 0.0
  let nan : Float := 0.0 / 0.0
  [("true".toList, .bool true), ("false".toList, .bool false), ("inf".toList, .float inf),
    ("nan".toList, .float nan), ("-inf".toList, .float (-inf)), ("+inf".toList, .float inf),
    ("-nan".toList, .float nan), ("+nan".toList, .float nan)]

def plain (s : Text) : Except Problem (Value × Text) :=
  match number s with
  | .error (.malformed _) => orMalformed (names.findSome? fun (w, v) => (w.isPrefixOf? s).map fun r => (v, r))
  | found => found

end DocMark.Toml
