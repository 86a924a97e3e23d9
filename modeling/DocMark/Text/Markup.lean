import DocMark.Text.Replace

/-!
The inline markup of comment text: code elements, paragraph markers and the comment gutter.
-/

namespace DocMark.Text

/-- The text after `<code>` or, with `closing`, after `</code>`. White space may stand around the
name and the slash. -/
def afterCodeTag? (closing : Bool) (s : Text) : Option Text :=
  match s with
  | '<' :: r =>
    let r := r.dropWhile isSpace
    let named := if closing then ("/".toList.isPrefixOf? r).map (·.dropWhile isSpace) else some r
    match named.bind ("code".toList.isPrefixOf? ·) with
    | some r => ">".toList.isPrefixOf? (r.dropWhile isSpace)
    | none => none
  | _ => none

/-- The shortest stretch of one line before a closing code tag, and the text after that tag. -/
def upToCodeEnd? : Text → Option (Text × Text)
  | [] => none
  | c :: r =>
    match afterCodeTag? true (c :: r) with
    | some rest => some ([], rest)
    | none => if c = '\n' then none else (upToCodeEnd? r).map fun (body, rest) => (c :: body, rest)

def codeSpan (s : Text) : Text := "`".toList ++ s ++ "`".toList

/-- Recognise a code element and write it as a code span. -/
def codeElement? (s : Text) : Option (Nat × Text) :=
  match (afterCodeTag? false s).bind upToCodeEnd? with
  | some (body, rest) => some (s.length - rest.length, codeSpan body)
  | none => none

def codeToMarkdown (s : Text) : Text := replaceAll codeElement? s

/-- The length of the paragraph marker `<p>` or `</p>`, in either case, at the head of a text. -/
def paragraphMarker? (s : Text) : Option Nat :=
  match s with
  | '<' :: p :: '>' :: _ => if p = 'p' ∨ p = 'P' then some 3 else none
  | '<' :: '/' :: p :: '>' :: _ => if p = 'p' ∨ p = 'P' then some 4 else none
  | _ => none

def replaceParagraphs (w : Text) (s : Text) : Text :=
  replaceAll (fun t => (paragraphMarker? t).map fun n => (n, w)) s

def splitParagraphs (s : Text) : List Text := cut paragraphMarker? s

/-- The text after the comment gutter: blanks, one star, and at most one blank. A text without a
gutter stays as it is. -/
def dropGutter (s : Text) : Text :=
  match s.dropWhile isBlank with
  | '*' :: b :: r => if isBlank b then r else b :: r
  | ['*'] => []
  | _ => s

end DocMark.Text
