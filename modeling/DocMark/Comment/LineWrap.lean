import DocMark.Comment.Line
import DocMark.Text.Replace

/-!
Rebuilding a value that spans several comment lines.

Lines are fed one at a time. Fenced code is kept as it stands, list items get lines of their own, and
everything else flows into paragraphs. Blocks, which are fences and lists, start on their own line; a
value that opens with a block begins with a line feed, so that the block does not end up on the line of
the tag's label.
-/

namespace DocMark.Comment

/-- The indent of continuation lines: it nests under both depths of bullets. -/
def indent : Text := "     ".toList

/-- A value under construction. -/
structure LineWrap where
  /-- The next line is inside a fenced block. -/
  codeBlock : Bool := false
  /-- The last line was a list item. -/
  listBlock : Bool := false
  /-- The last line was the first item of its list. -/
  newList : Bool := false
  /-- A paragraph marker came after the last prose. -/
  paragraphBreak : Bool := false
  /-- The Markdown so far. -/
  buffer : Text := []
deriving DecidableEq, Repr

namespace LineWrap

/-- The text without the blanks at its end, and without the line feed before them if there are
blanks. -/
def trimIndentEnd (s : Text) : Text :=
  match s.reverse.takeWhile Text.isBlank, s.reverse.dropWhile Text.isBlank with
  | [], _ => s
  | _ :: _, '\n' :: r => r.reverse
  | _ :: _, r => r.reverse

/-- Drop a dangling indent: the one that ends the text, or the one before its final line feed. -/
def trimIndent (s : Text) : Text :=
  match s.reverse with
  | '\n' :: r => trimIndentEnd r.reverse ++ ['\n']
  | _ => trimIndentEnd s

def startLine (s : Text) : Text :=
  if s.isEmpty then ['\n']
  else if Text.endsWith ['\n'] s then s
  else Text.trimEnd Text.isBlank s ++ ['\n']

/-- Bring the buffer to the start of a line, with an empty line before it unless nothing was written
yet. -/
def startBlock (s : Text) : Text :=
  let t := startLine s
  if t ≠ ['\n'] ∧ ¬ Text.endsWith "\n\n".toList t then t ++ ['\n'] else t

/-- Write one piece of prose. `first` says that no paragraph marker stands before it on its line. -/
def flowPiece (w : LineWrap) (first : Bool) (piece : Text) : LineWrap :=
  let w := if first then w else { w with paragraphBreak := true }
  match proseOf piece with
  | [] => w
  | text =>
    let lead :=
      if w.paragraphBreak && !(Text.strip w.buffer).isEmpty then
        Text.stripEnd w.buffer ++ "\n\n".toList ++ indent
      else if Text.endsWith ['\n'] w.buffer then w.buffer ++ indent
      else if w.buffer.isEmpty then []
      else w.buffer ++ [' ']
    { w with paragraphBreak := false, buffer := lead ++ text }

/-- Write a line of prose, which paragraph markers divide into pieces. -/
def flow (w : LineWrap) (line : Text) : LineWrap :=
  match Text.splitParagraphs line with
  | [] => w
  | p :: ps => ps.foldl (fun w p => w.flowPiece false p) (w.flowPiece true p)

/-- Open or close a fenced block. -/
def feedFence (w : LineWrap) (line : Text) : LineWrap :=
  let start := if w.codeBlock then w.buffer else startLine (trimIndent w.buffer)
  { w with
    codeBlock := !w.codeBlock
    listBlock := false
    newList := false
    buffer := start ++ indent ++ Text.strip line ++ ['\n'] }

def feedCode (w : LineWrap) (line : Text) : LineWrap :=
  match codeOf line with
  | [] => { w with buffer := w.buffer ++ ['\n'] }
  | code => { w with buffer := w.buffer ++ indent ++ code ++ ['\n'] }

def feedItem (w : LineWrap) (line : Text) : LineWrap :=
  let start := if w.listBlock then w.buffer else startBlock w.buffer
  { w with
    listBlock := true
    newList := !w.listBlock
    buffer := start ++ indent ++ Text.strip line ++ ['\n'] }

/-- Write a line of prose, after closing the list that was open. -/
def feedProse (w : LineWrap) (line : Text) : LineWrap :=
  let closed := if w.listBlock then w.buffer ++ ['\n'] else w.buffer
  flow { w with listBlock := false, newList := false, buffer := closed } line

def feed (w : LineWrap) (line : Text) : LineWrap :=
  if isFence line then w.feedFence line
  else if w.codeBlock then w.feedCode line
  else if isListItem line then w.feedItem line
  else w.feedProse line

/-- The value built so far, without white space at its end. -/
def value (w : LineWrap) : Text := Text.stripEnd w.buffer

def feedAll (lines : List Text) : LineWrap := lines.foldl feed {}

/-- The states after each of the lines. -/
def trail (w : LineWrap) : List Text → List LineWrap
  | [] => []
  | l :: ls => w.feed l :: trail (w.feed l) ls

end LineWrap

/-- The length of a line ending with the gutter of the next line: an optional carriage return, a line
feed, blanks and a star. -/
def continuation? (s : Text) : Option Nat :=
  let afterBreak : Option Text :=
    match s with
    | '\n' :: r => some r
    | '\r' :: '\n' :: r => some r
    | _ => none
  match afterBreak.map (·.dropWhile Text.isBlank) with
  | some ('*' :: r) => some (s.length - r.length)
  | _ => none

/-- The value that the text behind a tag's name stands for. -/
def valueOf (rest : Text) : Text :=
  (LineWrap.feedAll (Text.cut continuation? (Text.stripEnd rest))).value

end DocMark.Comment
