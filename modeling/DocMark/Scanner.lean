import DocMark.Pattern.Basic

/-!
A scanner is a cursor over a text that yields successive matches of one search.

The search is a parameter: from a cursor position it gives the next match or none. The cursor moves
to the end of each match, and one further after an empty match, so that no position is given twice.
When the search finds nothing, the cursor moves past the end of the text and the scanner is done.
-/

namespace DocMark

/-- A cursor over a text of `size` characters. -/
structure Scanner where
  /-- The next match at or after a position. -/
  search : Int → Option Match
  size : Nat
  pos : Int := 0

namespace Scanner

def ofPattern (p : Pattern) (s : Text) (pos : Int := 0) : Scanner := ⟨p.find s, s.length, pos⟩

def exhausted (sc : Scanner) : Bool := decide (sc.pos > sc.size)

def next (sc : Scanner) : Option Match × Scanner :=
  if sc.exhausted then (none, sc)
  else
    match sc.search sc.pos with
    | none => (none, { sc with pos := sc.size + 1 })
    | some m => (some m, { sc with pos := if m.stop > m.start then m.stop else m.stop + 1 })

/-- At most `n` further matches, in order, each with the scanner after it. -/
def steps : Nat → Scanner → List (Match × Scanner)
  | 0, _ => []
  | n + 1, sc =>
    match sc.next with
    | (some m, sc') => (m, sc') :: steps n sc'
    | (none, _) => []

def bound (sc : Scanner) : Nat := sc.size + 1 - sc.pos.toNat

def allMatches (sc : Scanner) : List Match := (sc.steps sc.bound).map (·.1)

end Scanner

end DocMark
