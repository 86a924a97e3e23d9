import DocMark.Text.Quoted
import DocMark.Text.Utf8

/-!
Raw texts: the names of files, and what is put together from them.

The bytes of a name need not be UTF-8. A stray byte, which is not part of a character, stands for itself in a
raw text. In the order of names it counts as a surrogate code point, and in messages it is written as one. A raw
text with a stray byte cannot be encoded.
-/

namespace DocMark

/-- A character, or a stray byte: `stray b` is the byte `128 + b`. -/
inductive RawChar where
  | char (c : Char)
  | stray (b : Fin 128)
deriving DecidableEq, Repr

namespace RawChar

/-- The code point, which for a stray byte is a surrogate. -/
def code : RawChar → Nat
  | char c => c.toNat
  | stray b => 0xDC80 + b

instance : LT RawChar := ⟨fun a b => a.code < b.code⟩

instance : DecidableLT RawChar := fun a b => inferInstanceAs (Decidable (a.code < b.code))

/-- The number of bytes in the name of a file. -/
def size : RawChar → Nat
  | char c => (Utf8.encode [c]).length
  | stray _ => 1

def isStray : RawChar → Bool
  | char _ => false
  | stray _ => true

def char? : RawChar → Option Char
  | char c => some c
  | stray _ => none

def shown : RawChar → Text
  | char c => [c]
  | stray b => "\\u".toList ++ Text.hex 4 (0xDC80 + b)

end RawChar

abbrev RawText := List RawChar

namespace RawText

def ofText (t : Text) : RawText := t.map .char

instance : Coe Text RawText := ⟨ofText⟩

def toText? (t : RawText) : Option Text := t.mapM RawChar.char?

def shown (t : RawText) : Text := t.flatMap RawChar.shown

def quoted (t : RawText) : Text :=
  let quote := Text.quoteFor (t.filterMap RawChar.char?)
  let inner : RawChar → Text
    | .char c => Text.quoteChar quote c
    | .stray b => (RawChar.stray b).shown
  quote :: t.flatMap inner ++ [quote]

def size (t : RawText) : Nat := t.foldr (fun c n => c.size + n) 0

def joined (names : List RawText) : RawText := List.intercalate [.char '/'] names

/-- What is said of a text that cannot be encoded: where its first stray bytes stand, and which byte it is if it
is only one. -/
def encodeMessage (t : RawText) : Text :=
  let start := (t.takeWhile fun c => !c.isStray).length
  let strays := (t.drop start).takeWhile RawChar.isStray
  let place : Text := match strays with
    | [c] => " '".toList ++ c.shown ++ "' in position ".toList ++ Text.ofNat start
    | _ => "s in position ".toList ++ Text.ofNat start ++ '-' :: Text.ofNat (start + strays.length - 1)
  "'utf-8' codec can't encode character".toList ++ place ++ ": surrogates not allowed".toList

end RawText

end DocMark
