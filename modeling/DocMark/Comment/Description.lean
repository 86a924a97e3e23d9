import DocMark.Comment.Tag

/-!
The description of a doc comment as Markdown, and the parsing of a whole comment body.

Prose lines are joined into paragraphs, and paragraph markers become blank lines. Fenced code is kept
line by line and list items stay on lines of their own. Blocks and prose are divided by blank lines.
-/

namespace DocMark.Comment

/-- A description under construction. -/
structure Draft where
  /-- The finished blocks, in order. -/
  blocks : List Text := []
  /-- The prose lines that are not yet in a block. -/
  prose : List Text := []
  /-- The lines of the code block or list that is open. -/
  open_ : List Text := []
  inCode : Bool := false
  inList : Bool := false
deriving DecidableEq, Repr

namespace Draft

/-- Finish the prose block; prose that comes to nothing is dropped. -/
def flushProse (d : Draft) : Draft :=
  match Text.cleanLine (Text.replaceParagraphs "\n\n".toList (Text.joinWith [' '] d.prose)) with
  | [] => { d with prose := [] }
  | text => { d with prose := [], blocks := d.blocks ++ [text] }

def flushOpen (d : Draft) : Draft :=
  match d.open_ with
  | [] => d
  | lines => { d with open_ := [], blocks := d.blocks ++ [Text.joinWith ['\n'] lines] }

def addOpen (d : Draft) (line : Text) : Draft := { d with open_ := d.open_ ++ [line] }

def feed (d : Draft) (line : Text) : Draft :=
  if isFence line then
    if d.inCode then
      { (d.addOpen (Text.strip line)).flushOpen with inCode := false }
    else
      { d.flushProse.flushOpen.addOpen (Text.strip line) with inCode := true, inList := false }
  else if d.inCode then
    d.addOpen (if isBlankMarker line then [] else Text.stripEnd line)
  else if isListItem line then
    let d := if d.inList then d else { d.flushProse with inList := true }
    d.addOpen (Text.stripEnd line)
  else
    let d := if d.inList then { d.flushOpen with inList := false } else d
    { d with prose := d.prose ++ [proseOf line] }

def finish (d : Draft) : Text := Text.joinWith "\n\n".toList d.flushOpen.flushProse.blocks

end Draft

/-- The text behind the gutter of a comment line: blanks, a star and one blank. -/
def lineText? (line : Text) : Option Text :=
  match line.dropWhile Text.isBlank with
  | '*' :: b :: r => if Text.isBlank b then some r else none
  | _ => none

/-- The texts of the comment lines of a raw description. Lines without a gutter are left out. -/
def lineTexts (raw : Text) : List Text := (Text.lines raw).filterMap lineText?

def describe (raw : Text) : Text := ((lineTexts raw).foldl Draft.feed {}).finish

/-- The Markdown description and the tags of a comment body. -/
def parse (doc : Text) : Text × List Tag :=
  let (raw, chunks) := splitTags doc
  (describe raw, parseTags chunks)

end DocMark.Comment
