import DocMark.FileTree

/-!
The sources of a site: the files of a directory tree with one extension.

Hidden files and directories are left out, and so are excluded directories and the directory that the
pages go to. A directory is excluded by its name or by its path from the top. A directory that cannot be
listed counts as empty.
-/

namespace DocMark.Site

/-- An extension without white space around it and without points in front. -/
def normalizeExtension (s : Text) : Text := (Text.strip s).dropWhile (· == '.')

/-- Directories that are never looked into. -/
def defaultExcludes : List Text :=
  [".git", ".hg", ".svn", "__pycache__", "node_modules", "vendor", ".idea", ".vscode"].map
    String.toList

/-- The excluded names and paths: the given ones besides the defaults. -/
def effectiveExcludes (given : List Text) : List Text := (defaultExcludes ++ given).eraseDups

def isHidden (name : RawText) : Bool := [.char '.'].isPrefixOf name

/-- Whether the directory at `parts` is left out. `output` is the path of the pages from the top, if they
go below it. -/
def skipsDir (excludes : List Text) (output : Option (List RawText)) (parts : List RawText) : Bool :=
  let name := parts.getLastD []
  let excluded := excludes.map RawText.ofText
  isHidden name || excluded.contains name ||
    (match output with
      | some out => !out.isEmpty && out.isPrefixOf parts
      | none => false) ||
    excluded.contains (RawText.joined parts)

def suffix (extension : Text) : RawText := RawText.ofText ('.' :: extension)

def isSource (extension : Text) (name : RawText) : Bool :=
  !isHidden name && (suffix extension).isSuffixOf name && name != suffix extension

mutual

/-- The sources at or below a node with the names `above`. -/
def sourcesAt (skips : List RawText → Bool) (wanted : RawText → Bool) :
    (above : List RawText) → FileTree → List (List RawText)
  | above, .file _ _ => if wanted (above.getLastD []) then [above] else []
  | above, .dir es _ => if skips above then [] else sourcesIn skips wanted above es

/-- The sources below the entries of a directory with the names `above`. -/
def sourcesIn (skips : List RawText → Bool) (wanted : RawText → Bool) :
    (above : List RawText) → List (RawText × FileTree) → List (List RawText)
  | _, [] => []
  | above, (n, t) :: r => sourcesAt skips wanted (above ++ [n]) t ++ sourcesIn skips wanted above r

end

/-- The order of paths: by their components, and those by code points. -/
def pathLe (a b : List RawText) : Bool := decide (¬ b < a)

def textLe (a b : Text) : Bool := decide (¬ b < a)

def sources (excludes : List Text) (output : Option (List RawText)) (extension : Text) (tree : FileTree)
    (top : Path) : List (List RawText) :=
  let unlisted (parts : List RawText) : Bool := !(tree.list (top ++ (⟨[], parts⟩ : Path))).isOk
  match tree.list top with
  | .ok es =>
    (sourcesIn (fun parts => skipsDir excludes output parts || unlisted parts) (isSource extension)
      [] es).mergeSort pathLe
  | .error _ => []

end DocMark.Site
