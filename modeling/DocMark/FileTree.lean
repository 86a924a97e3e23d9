import DocMark.Path

/-!
A tree of files and directories, and the operations on it that can fail.

Operations take a path and the working directory that it is seen from. A `..` in a path leads to the parent of a
directory that exists. Directories list their entries in any order. The system may refuse an operation: every node
has rights, and there are limits for the length of a name and of a whole path. There are no links, and directories
may be nested as deep as the length of paths allows.
-/

namespace DocMark

structure Rights where
  /-- Read the bytes of a file, or list the entries of a directory. -/
  read : Bool := true
  /-- Write the bytes of a file, or add entries to a directory. -/
  write : Bool := true
  /-- Follow a path through a directory. -/
  search : Bool := true
deriving DecidableEq, Repr

/-- A file with its bytes, or a directory with its entries. -/
inductive FileTree where
  | file (content : Bytes) (rights : Rights := {})
  | dir (entries : List (RawText × FileTree)) (rights : Rights := {})

inductive FileCause where
  | notFound
  | denied
  | alreadyExists
  | notDirectory
  | isDirectory
  | nameTooLong
  /-- A name holds the null character, so that the system is not even asked. -/
  | nullByte
deriving DecidableEq, Repr

structure FileError where
  cause : FileCause
  path : Path
deriving DecidableEq, Repr

namespace FileError

/-- The number and the wording of a cause, if it comes from the system. -/
def system? : FileCause → Option (Nat × String)
  | .notFound => some (2, "No such file or directory")
  | .denied => some (13, "Permission denied")
  | .alreadyExists => some (17, "File exists")
  | .notDirectory => some (20, "Not a directory")
  | .isDirectory => some (21, "Is a directory")
  | .nameTooLong => some (36, "File name too long")
  | .nullByte => none

def message (e : FileError) : Text :=
  match system? e.cause with
  | some (number, wording) =>
    "[Errno ".toList ++ Text.ofNat number ++ "] ".toList ++ wording.toList ++ ": ".toList ++
      e.path.toRaw.quoted
  | none => "embedded null byte".toList

end FileError

namespace FileTree

def isDir : FileTree → Bool
  | .dir _ _ => true
  | .file _ _ => false

def rights : FileTree → Rights
  | .dir _ r => r
  | .file _ r => r

/-- The node at the end of a list of names, whatever its rights. -/
def find : FileTree → List RawText → Except FileCause FileTree
  | t, [] => .ok t
  | .file _ _, _ :: _ => .error .notDirectory
  | .dir es _, p :: ps =>
    match es.lookup p with
    | some t => find t ps
    | none => .error .notFound

/-- Set the entry of a name; a new name goes to the end. -/
def setEntry (name : RawText) (t : FileTree) : List (RawText × FileTree) → List (RawText × FileTree)
  | [] => [(name, t)]
  | (n, u) :: r => if n = name then (n, t) :: r else (n, u) :: setEntry name t r

/-- Put a node at the end of a list of names. Missing directories on the way are made, and nothing is
put below a file. -/
def put : FileTree → List RawText → (leaf : FileTree) → FileTree
  | _, [], leaf => leaf
  | .file b r, _ :: _, _ => .file b r
  | .dir es r, p :: ps, leaf => .dir (setEntry p (put ((es.lookup p).getD (.dir [])) ps leaf) es) r

def erase : FileTree → List RawText → FileTree
  | t, [] => t
  | .file b r, _ :: _ => .file b r
  | .dir es r, [p] => .dir (es.filter (·.1 ≠ p)) r
  | .dir es r, p :: q :: ps =>
    match es.lookup p with
    | some t => .dir (setEntry p (erase t (q :: ps)) es) r
    | none => .dir es r

/-- Whether a name is longer than directories allow: 255 bytes. -/
def isTooLong (name : RawText) : Bool := 255 < name.size

/-- Why a path is refused before anything is looked up: it cannot be handed over, or it has more than 4096 bytes. -/
def refused? (p : Path) : Option FileCause :=
  if p.hasNull then some .nullByte else if 4096 < p.size then some .nameTooLong else none

/-- The names that a path leads to, after the names gone through so far. Every directory on the way
has to exist and to let paths through. -/
def settle (t : FileTree) : (gone : List RawText) → List RawText → Except FileCause (List RawText)
  | gone, [] => .ok gone
  | gone, p :: ps =>
    match t.find gone with
    | .ok (.dir _ r) =>
      if !r.search then .error .denied
      else if isTooLong p then .error .nameTooLong
      else settle t (if p = Path.up then gone.dropLast else gone ++ [p]) ps
    | .ok (.file _ _) => .error .notDirectory
    | .error e => .error e

/-- The names that a path leads to, as seen from `cwd`. -/
def follow (t : FileTree) (p : Path) (cwd : Path := .top) : Except FileCause (List RawText) :=
  match refused? p with
  | some e => .error e
  | none => t.settle (if p.isAbsolute then [] else cwd.parts) p.parts

/-- The node that a path leads to. -/
def look (t : FileTree) (p : Path) (cwd : Path := .top) : Except FileCause FileTree := do
  t.find (← t.follow p cwd)

/-- The node that a path leads to, if there is one. It is an error when the system does not let the path be
followed. -/
def seen (t : FileTree) (p : Path) (cwd : Path := .top) : Except FileCause (Option FileTree) :=
  match t.look p cwd with
  | .ok n => .ok (some n)
  | .error .nameTooLong => .error .nameTooLong
  | .error .denied => .error .denied
  | .error _ => .ok none

def hasDir (t : FileTree) (p : Path) (cwd : Path := .top) : Bool :=
  match t.look p cwd with
  | .ok n => n.isDir
  | .error _ => false

def list (t : FileTree) (p : Path) (cwd : Path := .top) : Except FileCause (List (RawText × FileTree)) := do
  match ← t.look p cwd with
  | .dir es r => if r.read then .ok es else .error .denied
  | .file _ _ => .error .notDirectory

def read (t : FileTree) (p : Path) (cwd : Path := .top) : Except FileCause Bytes := do
  match ← t.look p cwd with
  | .file b r => if r.read then .ok b else .error .denied
  | .dir _ r => .error (if r.read then .isDirectory else .denied)

/-- Add a node where none is, to a directory that has to exist. -/
def add (t : FileTree) (names : List RawText) (leaf : FileTree) : Except FileCause FileTree :=
  match t.find names.dropLast with
  | .ok (.dir _ r) => if r.write then .ok (t.put names leaf) else .error .denied
  | .ok (.file _ _) => .error .notDirectory
  | .error e => .error e

/-- Write a file, whose directory has to exist. A file that is there keeps its rights. -/
def write (t : FileTree) (p : Path) (content : Bytes) (cwd : Path := .top) : Except FileCause FileTree := do
  let names ← t.follow p cwd
  match t.find names with
  | .ok (.dir _ _) => .error .isDirectory
  | .ok (.file _ r) => if r.write then .ok (t.put names (.file content r)) else .error .denied
  | .error .notFound => t.add names (.file content)
  | .error e => .error e

/-- Make one directory, whose parent has to exist. -/
def makeDir (t : FileTree) (p : Path) (cwd : Path := .top) : Except FileCause FileTree := do
  let names ← t.follow p cwd
  match t.find names with
  | .ok _ => .error .alreadyExists
  | .error .notFound => t.add names (.dir [])
  | .error e => .error e

/-- Make one directory as seen from `cwd`; it may exist already. -/
def ensureDir (cwd p : Path) : ExceptT FileError (StateM FileTree) Unit := do
  let t ← get
  match t.makeDir p cwd with
  | .ok t => set t
  | .error e => if t.hasDir p cwd then pure () else throw ⟨e, p⟩

/-- Make a directory, given by its components from the last to the first, and its missing parents. It
may exist already. Directories made before a failure stay. -/
def makeDirsBackwards (cwd : Path) (root : Text) :
    (backwards : List RawText) → ExceptT FileError (StateM FileTree) Unit
  | [] => ensureDir cwd ⟨root, []⟩
  | name :: rest => do
    let p : Path := ⟨root, (name :: rest).reverse⟩
    if let .error .notFound := (← get).makeDir p cwd then
      makeDirsBackwards cwd root rest
    ensureDir cwd p

/-- Make a directory and its missing parents, as seen from `cwd`. -/
def makeDirs (cwd p : Path) : ExceptT FileError (StateM FileTree) Unit :=
  makeDirsBackwards cwd p.root p.parts.reverse

def writeFile (cwd p : Path) (content : Bytes) : ExceptT FileError (StateM FileTree) Unit := do
  match (← get).write p content cwd with
  | .ok t => set t
  | .error e => throw ⟨e, p⟩

/-- Write a file and make the directories that it needs, as seen from `cwd`. -/
def save (cwd p : Path) (content : Bytes) : ExceptT FileError (StateM FileTree) Unit := do
  makeDirs cwd p.parent
  writeFile cwd p content

mutual

/-- The files below a node, with their names from the node on. -/
def files : (above : List RawText) → FileTree → List (List RawText × Bytes)
  | above, .file b _ => [(above, b)]
  | above, .dir es _ => filesIn above es

def filesIn : (above : List RawText) → List (RawText × FileTree) → List (List RawText × Bytes)
  | _, [] => []
  | above, (n, t) :: r => files (above ++ [n]) t ++ filesIn above r

end

end FileTree

end DocMark
