import DocMark.Text.Basic

/-!
Tag groups: the entries of a section's tags, gathered under labels in the order of first use.

An entry without text marks a declaration and nothing more. A group that holds only such entries is a
bare label; a single entry goes on the label's line, and several become a nested list.
-/

namespace DocMark

/-- What a tag leaves in its group: a text, or nothing for a flag. -/
abbrev Entry := Option Text

structure TagGroup where
  name : Text
  entries : List Entry
deriving DecidableEq, Repr

/-- Groups in the order of their first use, no two with one name. -/
abbrev TagGroups := List TagGroup

namespace TagGroups

/-- Add an entry to its group; a new group goes to the end. -/
def add (name : Text) (entry : Entry) : TagGroups → TagGroups
  | [] => [⟨name, [entry]⟩]
  | g :: gs =>
    if g.name = name then ⟨g.name, g.entries ++ [entry]⟩ :: gs else g :: add name entry gs

def entries? (gs : TagGroups) (name : Text) : Option (List Entry) :=
  (gs.find? (·.name = name)).map (·.entries)

def names (gs : TagGroups) : List Text := gs.map (·.name)

end TagGroups

namespace TagGroup

/-- The text behind a bullet or label: a value that opens with a block starts on the next line. -/
def inline (value : Text) : Text :=
  match value with
  | [] => []
  | c :: _ => if c = '\n' then value else ' ' :: value

def render (g : TagGroup) : Text :=
  let label := "\n * **".toList ++ g.name
  match g.entries.filterMap id with
  | [] => label ++ "**".toList
  | [value] => label ++ ":**".toList ++ inline value
  | values => label ++ ":**".toList ++ values.flatMap fun v => "\n   *".toList ++ inline v

end TagGroup

def TagGroups.render (gs : TagGroups) : Text := gs.flatMap TagGroup.render

end DocMark
