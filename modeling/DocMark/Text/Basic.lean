/-!
Text and its character classes.

A text is a list of code points, so positions and lengths count code points. Three classes matter
to doc comments: *space* is everything a trim removes, *blank* is a tab or a space and may stand in
a comment gutter, and a *break* is a line feed, a carriage return or a tab.
-/

namespace DocMark

/-- A text is the list of its code points. -/
abbrev Text := List Char

namespace Text

/-- White space: what trimming removes and what separates words. -/
def isSpace (c : Char) : Bool :=
  let n := c.toNat
  (9 ≤ n && n ≤ 13) || (28 ≤ n && n ≤ 32) || n == 0x85 || n == 0xA0 || n == 0x1680 ||
    (0x2000 ≤ n && n ≤ 0x200A) || n == 0x2028 || n == 0x2029 || n == 0x202F || n == 0x205F ||
    n == 0x3000

/-- A tab or a space, the only characters allowed around the star of a comment line. -/
def isBlank (c : Char) : Bool := c == ' ' || c == '\t'

/-- A line feed, a carriage return or a tab: spaces next to one carry no meaning. -/
def isBreak (c : Char) : Bool := c == '\n' || c == '\r' || c == '\t'

def isLetter (c : Char) : Bool := ('a' ≤ c && c ≤ 'z') || ('A' ≤ c && c ≤ 'Z')

/-- Drop the longest run of `p` at the end. -/
def trimEnd (p : Char → Bool) (s : Text) : Text := (s.reverse.dropWhile p).reverse

def stripEnd (s : Text) : Text := trimEnd isSpace s

def strip (s : Text) : Text := stripEnd (s.dropWhile isSpace)

def startsWith (w s : Text) : Bool := w.isPrefixOf s

def endsWith (w s : Text) : Bool := w.isSuffixOf s

def holds (w : Text) : Text → Bool
  | [] => w.isEmpty
  | c :: r => startsWith w (c :: r) || holds w r

/-- Put `c` in front of the first text of a list of texts. -/
def consHead (c : Char) : List Text → List Text
  | [] => [[c]]
  | p :: ps => (c :: p) :: ps

/-- The texts between the separators `sep`; there is one more of them than there are separators. -/
def splitAt (sep : Char) : Text → List Text
  | [] => [[]]
  | c :: r => if c = sep then [] :: splitAt sep r else consHead c (splitAt sep r)

/-- The lines of a text. Only a line feed ends a line. -/
def lines (s : Text) : List Text := splitAt '\n' s

/-- The texts of a list, one after another, with `sep` in between. -/
def joinWith (sep : Text) : List Text → Text
  | [] => []
  | [p] => p
  | p :: q :: ps => p ++ sep ++ joinWith sep (q :: ps)

/-- `n` copies of `s`; none when `n` is negative. -/
def times (s : Text) (n : Int) : Text :=
  if s.isEmpty then [] else (List.replicate n.toNat s).flatten

def ofNat (n : Nat) : Text := Nat.toDigits 10 n

/-- A whole number in decimal, with a sign when it is negative. -/
def ofInt (i : Int) : Text := if i < 0 then '-' :: ofNat i.natAbs else ofNat i.natAbs

/-- A number in decimal with zeros in front up to the given width. -/
def padded (width n : Nat) : Text := List.replicate (width - (ofNat n).length) '0' ++ ofNat n

/-- The first line and the remainder, which keeps its leading line feed. -/
def splitFirstLine (s : Text) : Text × Text := (s.takeWhile (· != '\n'), s.dropWhile (· != '\n'))

/-- Every line ending becomes a line feed: a carriage return before a line feed is dropped, and any
other one is replaced. -/
def normalizeNewlines : Text → Text
  | [] => []
  | c :: r =>
    if c = '\r' then
      if r.head? = some '\n' then normalizeNewlines r else '\n' :: normalizeNewlines r
    else c :: normalizeNewlines r

@[simp] theorem splitFirstLine_append (s : Text) :
    (splitFirstLine s).1 ++ (splitFirstLine s).2 = s := by
  simp [splitFirstLine, List.takeWhile_append_dropWhile]

theorem splitAt_ne_nil (sep : Char) (s : Text) : splitAt sep s ≠ [] := by
  induction s with
  | nil => simp [splitAt]
  | cons c r ih =>
    rw [splitAt]
    split
    · simp
    · cases h : splitAt sep r with
      | nil => exact absurd h ih
      | cons p ps => simp [consHead]

end Text

end DocMark
