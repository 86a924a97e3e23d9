import DocMark.Comment.Tag
import DocMark.Flavor.TagGroups
import DocMark.Flavor.TypeStyle
import DocMark.Text.Case
import DocMark.Text.Quoted

/-!
Flavors: which tags a doc comment may hold, the group each goes to, and how its value is written there.

All flavors share flags, plain texts and the type of the receiver. A flavor of a statically typed
language adds parameters, exceptions and results. A flavor of a dynamically typed language writes those
in its type style, and adds the types of variables.
-/

namespace DocMark

/-- What a flavor makes of types. -/
inductive FlavorKind where
  /-- Only the shared tags. -/
  | base
  /-- Types are in the declaration. -/
  | static
  /-- Types are in the tags. -/
  | dynamic (style : TypeStyle)
deriving DecidableEq, Repr

/-- A dialect of doc comments. -/
structure Flavor where
  name : Text
  kind : FlavorKind
deriving DecidableEq, Repr

/-- How the value of a tag becomes an entry. -/
inductive Treatment where
  /-- The tag only marks the declaration. -/
  | flag
  /-- The value is shown as written. -/
  | text
  /-- The value is code. -/
  | code
  /-- The first token is code and the remainder is text. -/
  | leadingCode
  /-- A type, perhaps the name of a parameter, and text. -/
  | typedName (style : TypeStyle)
  /-- A type and text. -/
  | typed (style : TypeStyle)
deriving DecidableEq, Repr

namespace Treatment

/-- Cut the first line of a value into its first token and the remainder, and keep the other lines. -/
def headAndRest (value : Text) : Text × Text × Text :=
  match tokenizeHead 2 value with
  | .ok ([first, rest], tail) => (first, rest, tail)
  | _ => ([], [], [])

/-- The entry of a value with a type and perhaps a name. A second token that is no name is part of the
text. -/
def typedNameEntry (style : TypeStyle) (value : Text) : Except FlavorError Text :=
  match tokenizeHead 3 value with
  | .ok ([type, name, rest], tail) => do
    let isProse ← if name.isEmpty then pure false else (! ·) <$> style.acceptsName type name
    let rest := if isProse then Text.strip (name ++ ' ' :: rest) else rest
    let head ← style.formatTypeAndName type name
    return joinEntry [head, rest] ++ tail
  | _ => .ok []

def entry (t : Treatment) (value : Text) : Except FlavorError Entry :=
  match t with
  | .flag => .ok none
  | .text => .ok (some value)
  | .code => .ok (some (spanUnlessEmpty value))
  | .leadingCode =>
    let (first, rest, tail) := headAndRest value
    .ok (some (joinEntry [spanUnlessEmpty first, rest] ++ tail))
  | .typedName style => some <$> typedNameEntry style value
  | .typed style => do
    let (first, rest, tail) := headAndRest value
    let head ← style.formatType first
    return some (joinEntry [head, rest] ++ tail)

end Treatment

namespace Flavor

/-- Tags that only mark a declaration, with their groups. -/
def flagGroups : List (String × String) :=
  [("abstract", "Abstract"), ("constructor", "Constructor"), ("deprec", "Deprecated"),
    ("deprecated", "Deprecated"), ("private", "Private")]

/-- Tags whose value is shown as written, with their groups. -/
def textGroups : List (String × String) :=
  [("access", "Access"), ("author", "Author"), ("copyright", "Copyright"), ("example", "Example"),
    ("exports", "Exports"), ("license", "License"), ("link", "Link"), ("name", "Alias"),
    ("package", "Package"), ("see", "See also"), ("since", "Since"), ("static", "Static"),
    ("subpackage", "Sub-package"), ("todo", "To-do"), ("version", "Version")]

/-- Tags that carry types, with their groups, for each kind of flavor. -/
def typedGroups : FlavorKind → List (String × String × Treatment)
  | .base => []
  | .static =>
    [("param", "Parameters", .leadingCode), ("exception", "Exceptions", .leadingCode),
      ("throws", "Exceptions", .leadingCode), ("return", "Returns", .text),
      ("returns", "Returns", .text)]
  | .dynamic style =>
    [("param", "Parameters", .typedName style), ("exception", "Exceptions", .typed style),
      ("throws", "Exceptions", .typed style), ("return", "Returns", .typed style),
      ("returns", "Returns", .typed style), ("var", "Type", .typed style)]

/-- The tags a kind of flavor knows, each with its group and treatment. -/
def knownTags (kind : FlavorKind) : List (String × String × Treatment) :=
  flagGroups.map (fun (k, g) => (k, g, .flag)) ++ textGroups.map (fun (k, g) => (k, g, .text)) ++
    ("this", "This", .code) :: typedGroups kind

/-- The group and the treatment of a tag key. -/
def handling? (f : Flavor) (key : Text) : Option (Text × Treatment) :=
  ((knownTags f.kind).find? fun (k, _) => k.toList = key).map fun (_, g, t) => (g.toList, t)

/-- Add the entry of a tag to its group. Tags that the flavor does not know are left out. -/
def addTag (f : Flavor) (gs : TagGroups) (tag : Comment.Tag) : Except FlavorError TagGroups :=
  match f.handling? tag.key with
  | some (group, t) => (t.entry tag.value).map fun e => gs.add group e
  | none => .ok gs

def addTags (f : Flavor) (tags : List Comment.Tag) : Except FlavorError TagGroups :=
  tags.foldlM f.addTag []

def unknownKeys (f : Flavor) (tags : List Comment.Tag) : List Text :=
  (tags.map (·.key)).filter fun k => (f.handling? k).isNone

/-- The flavor with only the shared tags. -/
def base : Flavor := ⟨"base".toList, .base⟩

def javadoc : Flavor := ⟨"javadoc".toList, .static⟩

def phpdoc : Flavor := ⟨"phpdoc".toList, .dynamic .dollar⟩

def jsdoc : Flavor := ⟨"jsdoc".toList, .dynamic .braced⟩

def named : List Flavor := [javadoc, phpdoc, jsdoc]

/-- The key that a flavor's name is looked up by: without white space around it, in lower case. -/
def lookupKey (name : Text) : Text := Text.lower (Text.strip name)

/-- The flavor of a name; white space around the name and case do not matter. -/
def ofName (name : Text) : Except FlavorError Flavor :=
  match named.find? (·.name = lookupKey name) with
  | some f => .ok f
  | none => .error (.unknown name)

def shown (f : Flavor) : Text :=
  let kind :=
    match f.kind with
    | .base => "Flavor"
    | .static => "StaticTypesFlavor"
    | .dynamic _ => "DynamicTypesFlavor"
  kind.toList ++ "(name=".toList ++ Text.quoted f.name ++ ")".toList

/-- The names of the flavors in alphabetical order. -/
def validNames : Text := "javadoc, jsdoc, phpdoc".toList

end Flavor

def FlavorError.message : FlavorError → Text
  | .styleUnspecified => []
  | .unknown name =>
    "Unknown flavor '".toList ++ name ++ "'. Valid flavors: ".toList ++ Flavor.validNames

end DocMark
