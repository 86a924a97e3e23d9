import DocMark.Text.Basic
import DocMark.Text.CaseTable

/-!
Upper and lower case of whole texts, in every script.

The lower case of a text depends on context in one place: a capital sigma at the end of a word, with a
letter before it and none after it, becomes the final form.
-/

namespace DocMark.Text

def inRanges (ranges : List (Nat × Nat)) (c : Char) : Bool :=
  ranges.any fun (first, last) => first ≤ c.toNat && c.toNat ≤ last

def isCased (c : Char) : Bool := inRanges casedRanges c

/-- Whether a character is skipped when the letters around a position are looked for. -/
def isCaseIgnorable (c : Char) : Bool := inRanges caseIgnorableRanges c

/-- The other case of a character, by its tables; a character in neither stays as it is. -/
def changeCase (runs : List (Nat × Nat × Nat × Int)) (long : List (Nat × List Nat)) (c : Char) :
    Text :=
  match long.find? (·.1 == c.toNat) with
  | some (_, points) => points.map Char.ofNat
  | none =>
    match runs.find? fun (first, last, step, _) =>
        first ≤ c.toNat && c.toNat ≤ last && (c.toNat - first) % step == 0 with
    | some (_, _, _, shift) => [Char.ofNat (c.toNat + shift).toNat]
    | none => [c]

def upperChar (c : Char) : Text := changeCase upperRuns longUpper c

def lowerChar (c : Char) : Text := changeCase lowerRuns longLower c

def upper (s : Text) : Text := s.flatMap upperChar

/-- Whether the first character that counts as a neighbour has case. -/
def nextIsCased (s : Text) : Bool :=
  match s.dropWhile isCaseIgnorable with
  | c :: _ => isCased c
  | [] => false

/-- The lower case of a text that stands after the characters of `before`, last one first. -/
def lowerAfter (before : Text) : Text → Text
  | [] => []
  | c :: r =>
    let low :=
      if c.toNat = 0x3A3 then
        [Char.ofNat (if nextIsCased before && !nextIsCased r then 0x3C2 else 0x3C3)]
      else lowerChar c
    low ++ lowerAfter (c :: before) r

def lower (s : Text) : Text := lowerAfter [] s

/-- The letters that a character stands for when case is ignored, where those are ASCII letters. -/
def foldChar (c : Char) : Text :=
  match [(0x17F, "s"), (0x212A, "k"), (0xDF, "ss"), (0x1E9E, "ss"), (0xFB00, "ff"), (0xFB01, "fi"),
      (0xFB02, "fl"), (0xFB03, "ffi"), (0xFB04, "ffl"), (0xFB05, "st"), (0xFB06, "st")].find?
      (·.1 == c.toNat) with
  | some (_, w) => w.toList
  | none => lowerChar c

/-- Whether a text equals an ASCII word when case is ignored. -/
def equalsIgnoringCase (word s : Text) : Bool := s.flatMap foldChar == word.flatMap foldChar

end DocMark.Text
