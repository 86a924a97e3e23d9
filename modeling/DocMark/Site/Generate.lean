import DocMark.Document.Render
import DocMark.Site.Walk
import DocMark.Value.Basic

/-!
Generating a site: every source of a directory is rendered to a page, and an index links the pages.
-/

namespace DocMark.Site

/-- A page and the source it documents, both relative to their directories. -/
structure Page where
  source : Path
  target : Path
  sections : Int
deriving DecidableEq, Repr

def indexFile : Text := "_index.md".toList

/-- The page of a source: its name has the extension replaced. -/
def targetFor? (extension : Text) (source : Path) : Option Path :=
  source.withName?
    (source.name.take (source.name.length - (extension.length + 1)) ++ RawText.ofText ".md".toList)

def indexLine (p : Page) : RawText :=
  RawText.ofText " * [".toList ++ p.source.toRaw ++ RawText.ofText " doc](".toList ++ p.target.toRaw ++
    RawText.ofText ")\n".toList

/-- The index page. It names all sources and pages, so that it can be encoded only if their names can. -/
def index (pages : List Page) : RawText :=
  RawText.ofText "\n# Documentation\n\n".toList ++ pages.flatMap indexLine

structure Plan where
  sourceRoot : Path
  outputDir : Path
  extension : Text
  flavor : Flavor
  headingLevel : Int
  excludes : List Text

inductive SiteError where
  /-- The source directory, as it was given, does not exist. -/
  | sourceNotFound (given : Text)
  | emptyExtension
  | flavor (e : FlavorError)
  | noSources (root : Path) (extension : Text)
  | unnamed (p : Path)
  /-- A path holds the null character. -/
  | nullInPath
  /-- The index names a file whose name cannot be encoded. -/
  | unencodable (index : RawText)
  | file (e : FileError)

def SiteError.message : SiteError → Text
  | .sourceNotFound given => "Source directory not found: ".toList ++ given
  | .emptyExtension => "Extension must not be empty".toList
  | .flavor e => e.message
  | .noSources root extension =>
    root.toText ++ " contains no .".toList ++ extension ++ " files".toList
  | .unnamed p => "PosixPath(".toList ++ p.toRaw.quoted ++ ") has an empty name".toList
  | .nullInPath => "embedded null byte".toList
  | .unencodable index => index.encodeMessage
  | .file e => e.message

structure Request where
  source : Path
  /-- The source directory as it was written. -/
  given : Text := source.toText
  output : Path
  extension : Text
  flavor : Text := "javadoc".toList
  headingLevel : Int := 1
  excludes : List Text := []

/-- Check a request and settle its paths, as seen from `cwd`. -/
def Plan.ofRequest (tree : FileTree) (cwd : Path) (r : Request) : Except SiteError Plan := do
  if r.source.hasNull then throw .nullInPath
  let sourceRoot := cwd.resolve r.source
  match tree.seen sourceRoot with
  | .ok (some (.dir _ _)) => pure ()
  | .ok _ => throw (.sourceNotFound r.given)
  | .error e => throw (.file ⟨e, sourceRoot⟩)
  if r.output.hasNull then throw .nullInPath
  let extension := normalizeExtension r.extension
  if extension.isEmpty then throw .emptyExtension
  let flavor ← (Flavor.ofName r.flavor).mapError .flavor
  return {
    sourceRoot
    outputDir := cwd.resolve r.output
    extension
    flavor
    headingLevel := r.headingLevel
    excludes := effectiveExcludes r.excludes }

structure Finished where
  plan : Plan
  pages : List Page
  warnings : List Text

def Plan.indexPath (p : Plan) : Path := p.outputDir.child indexFile

def Plan.sources (p : Plan) (tree : FileTree) : List (List RawText) :=
  Site.sources p.excludes (p.sourceRoot.below? p.outputDir) p.extension tree p.sourceRoot

structure Progress where
  tree : FileTree
  events : List Event := []

abbrev Build := ExceptT SiteError (StateM Progress)

namespace Build

def log (es : List Event) : Build Unit := modify fun p => { p with events := p.events ++ es }

def onFiles (act : ExceptT FileError (StateM FileTree) Unit) : Build Unit := do
  let (r, tree) := act.run.run (← get).tree
  modify fun p => { p with tree }
  match r with
  | .ok _ => pure ()
  | .error e => throw (.file e)

/-- Write a page or the index, with the directories that it needs. -/
def writePage (target : Path) (content : Text) : Build Unit := do
  log [⟨.info, .generation, "Creating ".toList ++ target.toText⟩]
  onFiles (FileTree.save .top target (Utf8.encode content))

end Build

/-- The text of a source, and a warning when bytes of it were dropped. -/
def readSource (name : RawText) (content : Bytes) : Text × List Text :=
  match Utf8.decode? content with
  | some s => (s, [])
  | none => (Utf8.decodeDropping content,
      [name.shown ++ " is not valid UTF-8; undecodable bytes were dropped".toList])

def Plan.makePage (p : Plan) (parts : List RawText) : Build (Page × List Text) := do
  let source : Path := ⟨[], parts⟩
  let full := p.sourceRoot ++ source
  let content ← match (← get).tree.read full with
    | .ok b => pure b
    | .error e => throw (.file ⟨e, full⟩)
  let (text, bad) := readSource source.name content
  let options : Document.Options := ⟨p.flavor, p.headingLevel⟩
  let rendered ← match Document.render options text with
    | .ok r => pure r
    | .error e => throw (.flavor e)
  Build.log (Document.events options text rendered)
  let target ← match targetFor? p.extension source with
    | some t => pure t
    | none => throw (.unnamed source)
  Build.writePage (p.outputDir ++ target) rendered.markdown
  let bare := if rendered.totalSections = 0 then
    ["No doc comments found in ".toList ++ source.toText] else []
  return (⟨source, target, rendered.renderedSections⟩, bad ++ bare)

/-- Write the index. The file is opened, and so emptied, before an index that cannot be encoded is given up. -/
def Plan.writeIndex (p : Plan) (index : RawText) : Build Unit := do
  Build.writePage p.indexPath (index.toText?.getD [])
  if index.toText? = none then throw (.unencodable index)

/-- Make a site: the pages in the order of their sources, then the index. -/
def Plan.generate (p : Plan) : Build Finished := do
  match p.sources (← get).tree with
  | [] => throw (.noSources p.sourceRoot p.extension)
  | sources =>
    let made ← sources.mapM p.makePage
    let pages := made.map (·.1)
    p.writeIndex (index pages)
    return ⟨p, pages, made.flatMap (·.2)⟩

def Page.report (p : Page) : Value :=
  .ofFields [("source", .str p.source.toText), ("target", .str p.target.toText),
    ("sections", .int p.sections)]

def Finished.report (s : Finished) : List (String × Value) :=
  [("source_root", .str s.plan.sourceRoot.toText), ("output_dir", .str s.plan.outputDir.toText),
    ("flavor", .str s.plan.flavor.name), ("files", .arr (s.pages.map Page.report)),
    ("file_count", .int s.pages.length), ("index", .str s.plan.indexPath.toText)]

end DocMark.Site
