import DocMark.Text.Basic
import DocMark.Text.Printable

/-!
Quoted text, as it stands in messages.

A text is put in single quotes, or in double quotes when it holds a single quote and no double one. A
backslash goes before backslashes and before the quote in use. Line feeds, carriage returns and tabs
have letters, and other characters that do not print are written with their code points.
-/

namespace DocMark.Text

def hexDigit (n : Nat) : Char := if n < 10 then Char.ofNat (48 + n) else Char.ofNat (87 + n)

/-- A number in `width` lower case hexadecimal digits, high digits first. -/
def hex : (width : Nat) → Nat → Text
  | 0, _ => []
  | w + 1, n => hex w (n / 16) ++ [hexDigit (n % 16)]

def quoteFor (s : Text) : Char := if s.contains '\'' && !s.contains '"' then '"' else '\''

/-- A character written with its code point, in two, four or eight hexadecimal digits. -/
def codePoint (c : Char) : Text :=
  if c.toNat < 0x100 then "\\x".toList ++ hex 2 c.toNat
  else if c.toNat < 0x10000 then "\\u".toList ++ hex 4 c.toNat
  else "\\U".toList ++ hex 8 c.toNat

def quoteChar (quote c : Char) : Text :=
  if c = quote ∨ c = '\\' then ['\\', c]
  else if c = '\n' then "\\n".toList
  else if c = '\r' then "\\r".toList
  else if c = '\t' then "\\t".toList
  else if isPrintable c then [c]
  else codePoint c

def quoted (s : Text) : Text :=
  quoteFor s :: s.flatMap (quoteChar (quoteFor s)) ++ [quoteFor s]

/-- The text with every character outside ASCII written with its code point. -/
def asciiOnly (s : Text) : Text := s.flatMap fun c => if c.toNat < 128 then [c] else codePoint c

end DocMark.Text
