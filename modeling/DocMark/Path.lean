import DocMark.Text.Raw

/-!
Paths: a root and the names below it.

Written paths drop empty and `.` components and a slash at the end; `..` stays. The root of an absolute
path is one slash, or two when the path was written with exactly two.
-/

namespace DocMark

/-- A path in normal form. -/
structure Path where
  /-- Empty for a relative path, else one or two slashes. -/
  root : Text
  parts : List RawText
deriving DecidableEq, Repr

namespace Path

def up : RawText := "..".toList

/-- The directory that all absolute paths start from. -/
def top : Path := ⟨"/".toList, []⟩

/-- The root that a written path begins with. -/
def rootOf (s : Text) : Text :=
  match (s.takeWhile (· == '/')).length with
  | 0 => []
  | 2 => "//".toList
  | _ => "/".toList

def ofText (s : Text) : Path :=
  ⟨rootOf s, ((Text.splitAt '/' s).filter fun p => p ≠ [] ∧ p ≠ ['.']).map RawText.ofText⟩

/-- Write a path; the empty path is a point. -/
def toRaw (p : Path) : RawText :=
  if p.root = [] ∧ p.parts = [] then [.char '.'] else RawText.ofText p.root ++ RawText.joined p.parts

def toText (p : Path) : Text := p.toRaw.shown

def isAbsolute (p : Path) : Bool := !p.root.isEmpty

/-- The path `q` as seen from `p`. -/
def append (p q : Path) : Path := if q.isAbsolute then q else ⟨p.root, p.parts ++ q.parts⟩

instance : Append Path := ⟨append⟩

def child (p : Path) (name : RawText) : Path := ⟨p.root, p.parts ++ [name]⟩

/-- The last component; empty when there is none. -/
def name (p : Path) : RawText := p.parts.getLastD []

def parent (p : Path) : Path := ⟨p.root, p.parts.dropLast⟩

/-- The path with another last component, if it has one. -/
def withName? (p : Path) (name : RawText) : Option Path :=
  if p.parts = [] then none else some (p.parent.child name)

/-- Cancel every `..` against the component before it; at the root it leads nowhere. -/
def cancelUps (parts : List RawText) : List RawText :=
  parts.foldl (fun done p => if p = up then done.dropLast else done ++ [p]) []

/-- The absolute path without `..`, as seen from the directory `cwd`. -/
def resolve (cwd p : Path) : Path :=
  let q := cwd ++ p
  ⟨"/".toList, cancelUps q.parts⟩

/-- The components of `p` below `base`, if `p` lies there. -/
def below? (base p : Path) : Option (List RawText) :=
  if base.root = p.root then base.parts.isPrefixOf? p.parts else none

/-- Whether a component holds the null character, which no name of a file can hold. -/
def hasNull (p : Path) : Bool := p.parts.any (·.contains (.char '\x00'))

/-- The number of bytes of a written path. Behind every component stands a slash, or in the end a zero. -/
def size (p : Path) : Nat := p.root.length + p.parts.foldr (fun name n => name.size + 1 + n) 0

/-- Why a path has no home directory to begin with. -/
inductive HomeError where
  | unknownUser
  /-- The name of the user holds the null character. -/
  | nullInName
deriving DecidableEq, Repr

/-- The path with the home directory put in for a `~` at its beginning. A name behind the `~` means the home
of that user. -/
def expandHome (p home : Path) (users : List (RawText × Path)) : Except HomeError Path :=
  match p.root, p.parts with
  | [], (.char '~' :: user) :: rest =>
    if user.contains (.char '\x00') then .error .nullInName
    else
      match if user = [] then some home else users.lookup user with
      | some h => .ok ⟨h.root, h.parts ++ rest⟩
      | none => .error .unknownUser
  | _, _ => .ok p

end Path

end DocMark
