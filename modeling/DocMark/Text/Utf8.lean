import DocMark.Text.Basic

/-!
UTF-8: texts as bytes and bytes as texts.

Decoding gives a list of characters and of gaps. A gap stands for a longest run of bytes that begins a
character and cannot be completed, or for one byte that begins none. What to make of gaps is up to the
reader: refuse them, drop them, or put a replacement character there.
-/

namespace DocMark

/-- The bytes of a file. -/
abbrev Bytes := List UInt8

namespace Utf8

def encode (s : Text) : Bytes := s.flatMap String.utf8EncodeChar

/-- A character whose first bytes were read: the value so far, the number of bytes still to come, and
the range of the next byte. -/
structure Partial where
  value : Nat
  left : Nat
  low : Nat
  high : Nat

inductive Lead where
  /-- The whole character. -/
  | done (c : Char)
  /-- More bytes follow. -/
  | more (p : Partial)
  /-- No character begins with this byte. -/
  | bad

def lead (b : Nat) : Lead :=
  if b < 0x80 then .done (Char.ofNat b)
  else if 0xC2 ≤ b ∧ b ≤ 0xDF then .more ⟨b - 0xC0, 1, 0x80, 0xBF⟩
  else if b = 0xE0 then .more ⟨0, 2, 0xA0, 0xBF⟩
  else if b = 0xED then .more ⟨0xD, 2, 0x80, 0x9F⟩
  else if 0xE1 ≤ b ∧ b ≤ 0xEF then .more ⟨b - 0xE0, 2, 0x80, 0xBF⟩
  else if b = 0xF0 then .more ⟨0, 3, 0x90, 0xBF⟩
  else if 0xF1 ≤ b ∧ b ≤ 0xF3 then .more ⟨b - 0xF0, 3, 0x80, 0xBF⟩
  else if b = 0xF4 then .more ⟨4, 3, 0x80, 0x8F⟩
  else .bad

/-- Decode bytes after the bytes of an unfinished character, if there is one. -/
def decodeFrom : Option Partial → Bytes → List (Option Char)
  | none, [] => []
  | some _, [] => [none]
  | none, b :: r =>
    match lead b.toNat with
    | .done c => some c :: decodeFrom none r
    | .more p => decodeFrom (some p) r
    | .bad => none :: decodeFrom none r
  | some p, b :: r =>
    if p.low ≤ b.toNat ∧ b.toNat ≤ p.high then
      let value := p.value * 64 + b.toNat % 64
      if p.left ≤ 1 then some (Char.ofNat value) :: decodeFrom none r
      else decodeFrom (some ⟨value, p.left - 1, 0x80, 0xBF⟩) r
    else
      match lead b.toNat with
      | .done c => none :: some c :: decodeFrom none r
      | .more q => none :: decodeFrom (some q) r
      | .bad => none :: none :: decodeFrom none r

def decode (bs : Bytes) : List (Option Char) := decodeFrom none bs

def decode? (bs : Bytes) : Option Text := (decode bs).mapM id

def decodeDropping (bs : Bytes) : Text := (decode bs).filterMap id

/-- The text of bytes, with U+FFFD in each gap. -/
def decodeReplacing (bs : Bytes) : Text := (decode bs).map (·.getD (Char.ofNat 0xFFFD))

end Utf8

end DocMark
