import DocMark.Comment.Description
import DocMark.Flavor.Basic
import DocMark.Log.Event
import DocMark.Source.Declaration
import DocMark.Source.Section
import DocMark.Text.Quoted

/-!
Markdown documents: a heading for the whole source, then a block for every documented declaration.

A block has a heading one level below its document, the description and the tag groups. Every class-like
declaration puts the blocks after it one level deeper. The log hears of documented imports, sections without a
declaration, tags that the flavor does not know, and the counts at the end.
-/

namespace DocMark.Document

structure Options where
  flavor : Flavor := Flavor.javadoc
  headingLevel : Int := 1

structure Rendered where
  markdown : Text
  flavor : Text
  headingLevel : Int
  totalSections : Nat
  renderedSections : Nat
deriving DecidableEq, Repr

/-- The number signs of a heading; none when the level is negative. -/
def marks (level : Int) : Text := Text.times ['#'] level

/-- The description and the tag groups below the heading of a section. -/
def sectionBody (flavor : Flavor) (doc : Text) : Except FlavorError Text := do
  let (description, tags) := Comment.parse doc
  let groups ← flavor.addTags tags
  return (if description.isEmpty then [] else "\n\n".toList ++ description) ++
    (if groups.isEmpty then [] else '\n' :: groups.render)

/-- The block of a section below a heading of the given level; empty when there is no declaration to
show. -/
def sectionBlock (flavor : Flavor) (level : Int) (s : Section) : Except FlavorError Text :=
  match Source.headline s.line with
  | [] => .ok []
  | field => do
    let body ← sectionBody flavor s.doc
    return "\n\n".toList ++ marks (level + 1) ++ ' ' :: Text.codeSpan field ++ body

def blocks (flavor : Flavor) : (level : Int) → List Section → Except FlavorError (List Text)
  | _, [] => .ok []
  | level, s :: rest => do
    let block ← sectionBlock flavor level s
    let others ← blocks flavor (if Source.isClassLike s.line then level + 1 else level) rest
    return block :: others

def render (options : Options) (source : Text) : Except FlavorError Rendered := do
  let sections := Source.sections source
  let parts ← blocks options.flavor options.headingLevel sections
  return {
    markdown := marks options.headingLevel ++ " Documentation".toList ++ parts.flatten ++ ['\n']
    flavor := options.flavor.name
    headingLevel := options.headingLevel
    totalSections := sections.length
    renderedSections := (parts.filter (· ≠ [])).length }

def tagEvents (flavor : Flavor) (tags : List Comment.Tag) : List Event :=
  (flavor.unknownKeys tags).map fun k => ⟨.debug, .flavors, "Ignoring unknown tag @".toList ++ k⟩

def sectionEvents (flavor : Flavor) (s : Section) : List Event :=
  if (Source.headline s.line).isEmpty then
    [⟨.debug, .rendering, "Skipping section without declaration: ".toList ++ Text.quoted s.line⟩]
  else tagEvents flavor (Comment.parse s.doc).2

def events (options : Options) (source : Text) (r : Rendered) : List Event :=
  (Source.importLines source).map
      (fun l => ⟨.debug, .scanner, "Skipping documented import: ".toList ++ l⟩) ++
    (Source.sections source).flatMap (sectionEvents options.flavor) ++
    [⟨.debug, .rendering, "Rendered ".toList ++ Text.ofNat r.renderedSections ++ " of ".toList ++
      Text.ofNat r.totalSections ++ " sections with ".toList ++ r.flavor⟩]

end DocMark.Document
