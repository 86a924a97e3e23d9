import DocMark.Text.Clean
import DocMark.Text.Digit
import DocMark.Text.Markup

/-!
The kinds of line in comment text: code fences, list items, blank markers and prose.
-/

namespace DocMark.Comment

/-- A code fence: blanks and three backquotes. -/
def isFence (line : Text) : Bool := Text.startsWith "```".toList (line.dropWhile Text.isBlank)

/-- The text after a list marker: one of `-`, `+`, `*`, or digits and a point. -/
def afterListMarker? (s : Text) : Option Text :=
  match s with
  | '-' :: r => some r
  | '+' :: r => some r
  | '*' :: r => some r
  | _ =>
    match s.takeWhile Text.isDigit, s.dropWhile Text.isDigit with
    | _ :: _, '.' :: r => some r
    | _, _ => none

/-- A list item: blanks, a list marker, at least one blank, and a character that is no space. -/
def isListItem (line : Text) : Bool :=
  match afterListMarker? (line.dropWhile Text.isBlank) with
  | some (b :: r) =>
    Text.isBlank b &&
      match r.dropWhile Text.isBlank with
      | c :: _ => !Text.isSpace c
      | [] => false
  | _ => false

def isBlankMarker (line : Text) : Bool :=
  Text.strip line == "<p>".toList || Text.strip line == "<P>".toList

/-- The code on a line of a fenced block: one blank after the gutter is dropped, and a blank marker
stands for an empty line. -/
def codeOf (line : Text) : Text :=
  if isBlankMarker line then []
  else
    match line with
    | c :: r => if Text.isBlank c then r else line
    | [] => []

def proseOf (line : Text) : Text := Text.codeToMarkdown (Text.cleanLine line)

end DocMark.Comment
