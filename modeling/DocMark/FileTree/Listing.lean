import DocMark.FileTree
import DocMark.Value.Json

/-!
File trees as data: an object from paths to contents.

The content of a file is its text, or an object with its bytes in hexadecimal; null stands for a directory.
Paths are seen from a working directory.
-/

namespace DocMark.FileTree

/-- The bytes that hexadecimal digits stand for, two digits each. -/
def hexBytes : Text → Bytes
  | a :: b :: r => UInt8.ofNat ((Json.hexNumber? [a, b]).getD 0) :: hexBytes r
  | _ => []

def ofContent : Value → FileTree
  | .str s => .file (Utf8.encode s)
  | .obj fs =>
    match Fields.get? fs "hex".toList with
    | some (.str digits) => .file (hexBytes digits)
    | _ => .file []
  | _ => .dir []

def ofListing (cwd : Path) (listing : Fields) : FileTree :=
  listing.foldl (fun t (p, v) => t.put (cwd ++ Path.ofText p).parts (ofContent v))
    (put (.dir []) cwd.parts (.dir []))

def filesBelow (t : FileTree) (top : Path) : List (List RawText × Bytes) :=
  match t.look top with
  | .ok node => node.files []
  | .error _ => []

/-- The files below a directory that are new in `after` or differ from those in `before`, with their
texts. -/
def changes (top : Path) (before after : FileTree) : Fields :=
  let old := before.filesBelow top
  ((after.filesBelow top).filter fun (p, b) => old.lookup p != some b).map fun (p, b) =>
    ((RawText.joined p).shown, .str (Utf8.decodeReplacing b))

end DocMark.FileTree
