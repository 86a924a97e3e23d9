import DocMark.Text.Basic

/-!
Clean lines: the normal form of a line of comment text.

A clean line has no white space at either end, no space next to a break and no two adjacent spaces.
A clean *single* line also has every break turned into a space.
-/

namespace DocMark.Text

/-- Whether the first character after a run of spaces is a break. -/
def breakAhead (s : Text) : Bool :=
  match s.dropWhile (· == ' ') with
  | b :: _ => isBreak b
  | [] => false

/-- Drop the spaces on either side of a break. `after` says that the last character kept was a
break, so that spaces found now are still next to it. -/
def tightenFrom : (after : Bool) → Text → Text
  | _, [] => []
  | after, c :: r =>
    if c = ' ' then
      if after || breakAhead r then tightenFrom after r else ' ' :: tightenFrom false r
    else c :: tightenFrom (isBreak c) r

/-- Drop every space that stands next to a break. -/
def tighten (s : Text) : Text := tightenFrom false s

/-- Write every run of spaces as one space. -/
def squeeze : Text → Text
  | [] => []
  | c :: r => if c = ' ' ∧ r.head? = some ' ' then squeeze r else c :: squeeze r

def cleanLine (s : Text) : Text := squeeze (tighten (strip s))

/-- The clean form of a line, with its breaks turned into spaces. -/
def cleanSingleLine (s : Text) : Text := (cleanLine s).map fun c => if isBreak c then ' ' else c

end DocMark.Text
