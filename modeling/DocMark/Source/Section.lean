import DocMark.Scanner

/-!
Sections of a source text.

A section is a block comment with the declaration that follows it. The comment opens with a slash
and two stars. It closes at the first star and slash that have a declaration behind them: a run of
characters other than an opening brace, a semicolon and a slash.
-/

namespace DocMark

structure Section where
  line : Text
  doc : Text
deriving DecidableEq, Repr

namespace Source

/-- A character that a declaration run can hold. -/
def isRunChar (c : Char) : Bool := c != '\x7b' && c != ';' && c != '/'

/-- The comment body and the declaration run, from just after the opening of a comment. -/
def bodyAndRun? : Text → Option (Text × Text)
  | [] => none
  | c :: r =>
    match "*/".toList.isPrefixOf? (c :: r) with
    | some (d :: rest) =>
      if isRunChar d then some ([], (d :: rest).takeWhile isRunChar)
      else (bodyAndRun? r).map fun (body, run) => (c :: body, run)
    | _ => (bodyAndRun? r).map fun (body, run) => (c :: body, run)

/-- A block comment and its declaration run; the body and the run are captured. -/
def sectionPattern : Pattern := fun s =>
  match ("/**".toList.isPrefixOf? s).bind bodyAndRun? with
  | some (body, run) => some ⟨3 + body.length + 2 + run.length, [body, run]⟩
  | none => none

def isImport (declaration : Text) : Bool :=
  match "import".toList.isPrefixOf? declaration with
  | some (c :: _) => Text.isSpace c
  | _ => false

/-- Write a paragraph marker after every star that only spaces separate from the end of its line, in
place of those spaces. `skip` says that the spaces at the head belong to such a star. -/
def markBlankFrom : (skip : Bool) → Text → Text
  | _, [] => []
  | skip, c :: r =>
    if skip && c == ' ' then markBlankFrom true r
    else if c = '*' then
      match r.dropWhile (· == ' ') with
      | [] => "* <p>".toList
      | d :: _ =>
        if d = '\n' then "* <p>".toList ++ markBlankFrom true r else c :: markBlankFrom false r
    else c :: markBlankFrom false r

/-- Turn the blank lines of a comment body into paragraph markers. -/
def markBlankLines (doc : Text) : Text := markBlankFrom false doc

/-- The comment body as a section holds it: with at least one star, and blank lines marked. -/
def docOf (body : Text) : Text :=
  markBlankLines (if body.contains '*' then body else '*' :: body)

/-- The comments with declarations in a source text, as pairs of body and declaration run. -/
def commentRuns (source : Text) : List (Text × Text) :=
  (Scanner.ofPattern sectionPattern (Text.normalizeNewlines source)).allMatches.filterMap fun m =>
    match m.groups with
    | [body, run] => some (body, run)
    | _ => none

def importLines (source : Text) : List Text :=
  ((commentRuns source).map fun (_, run) => Text.strip run).filter isImport

def sections (source : Text) : List Section :=
  (commentRuns source).filterMap fun (body, run) =>
    let line := Text.strip run
    if isImport line then none else some ⟨line, docOf body⟩

end Source

end DocMark
