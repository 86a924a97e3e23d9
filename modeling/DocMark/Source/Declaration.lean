import DocMark.Text.Clean

/-!
Declarations: the part of a line that a heading shows, and which lines open a class-like scope.
-/

namespace DocMark.Source

/-- The part of a declaration that a heading shows: all before the first opening brace or semicolon,
on one clean line. -/
def headline (line : Text) : Text :=
  Text.cleanSingleLine (line.takeWhile fun c => c != '\x7b' && c != ';')

/-- Words that may stand before the keyword of a class-like declaration. -/
def modifiers : List Text :=
  ["public", "protected", "private", "internal", "abstract", "final", "static", "sealed",
    "export", "default", "declare", "readonly"].map String.toList

/-- Keywords that open a class-like scope. -/
def typeKeywords : List Text := ["class", "interface", "trait", "enum"].map String.toList

/-- The pieces of a text between its white space characters. -/
def pieces : Text → List Text
  | [] => [[]]
  | c :: r => if Text.isSpace c then [] :: pieces r else Text.consHead c (pieces r)

/-- The words of a text that have white space behind them. A text that begins with white space has an
empty first word. -/
def spacedWords (s : Text) : List Text :=
  match (pieces s).dropLast with
  | [] => []
  | w :: ws => w :: ws.filter (· ≠ [])

/-- Whether a declaration opens a class-like scope: modifiers, then one of the keywords, with white
space behind every word. -/
def isClassLike (line : Text) : Bool :=
  match (spacedWords line).dropWhile (modifiers.contains ·) with
  | w :: _ => typeKeywords.contains w
  | [] => false

end DocMark.Source
