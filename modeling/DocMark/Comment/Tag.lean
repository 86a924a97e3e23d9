import DocMark.Comment.LineWrap

/-!
Tags of a doc comment.

A tag line is a comment line whose gutter is directly followed by an at sign. The tag lines divide a
comment body into a description and chunks, one for each tag. A chunk holds the tag's name and all text
up to the next tag.
-/

namespace DocMark.Comment

structure Tag where
  key : Text
  value : Text
deriving DecidableEq, Repr

/-- The length of a gutter with an at sign behind it: blanks, a star and blanks. -/
def tagGutter? (s : Text) : Option Nat :=
  match s.dropWhile Text.isBlank with
  | '*' :: r =>
    match r.dropWhile Text.isBlank with
    | '@' :: q => some (s.length - (q.length + 1))
    | _ => none
  | _ => none

/-- The pieces of a text between its tag gutters, after skipping `skip` characters. `atStart` says that
a line starts here. -/
def cutTagsFrom : (atStart : Bool) → (skip : Nat) → Text → List Text
  | _, _, [] => [[]]
  | _, k + 1, _ :: r => cutTagsFrom false k r
  | atStart, 0, c :: r =>
    match if atStart then tagGutter? (c :: r) else none with
    | some n => [] :: cutTagsFrom false (n - 1) r
    | none => Text.consHead c (cutTagsFrom (c == '\n') 0 r)

/-- The raw description of a comment body, and the raw chunks of its tags. -/
def splitTags (doc : Text) : Text × List Text :=
  match cutTagsFrom true 0 doc with
  | d :: chunks => (d, chunks)
  | [] => ([], [])

/-- The tag that a chunk holds, if it starts with an at sign and a name. -/
def parseTag? (chunk : Text) : Option Tag :=
  match chunk.dropWhile Text.isBlank with
  | '@' :: r =>
    match r.takeWhile Text.isLetter with
    | [] => none
    | key => some ⟨key, valueOf (r.dropWhile Text.isLetter)⟩
  | _ => none

/-- The tags of a list of chunks, in order. Chunks without a tag name are left out. -/
def parseTags (chunks : List Text) : List Tag := chunks.filterMap parseTag?

end DocMark.Comment
