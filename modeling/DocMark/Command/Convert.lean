import DocMark.Command.Context
import DocMark.Document.Render

/-!
The command that converts one source file to Markdown.
-/

namespace DocMark.Command

structure ConvertRequest where
  file : Text
  flavor : Option Text := none
  headingLevel : Option Int := none
  output : Option Text := none

def expandHome (p : Path) : Run Path := do
  let s ← get
  match p.expandHome s.home s.users with
  | .ok q => return q
  | .error .unknownUser => throw (.crash .noHome)
  | .error .nullInName => throw (.crash .nullInPath)

/-- The time a command took. -/
def telemetry (start : Float) : Run Fields := do
  return [("duration_ms".toList,
    .float (roundToPlaces 2 (((← get).clock - start) * 1000.0)))]

def onFiles (act : ExceptT FileError (StateM FileTree) Unit) : Run (Except FileError Unit) := do
  let s ← get
  let (result, files) := act.run.run s.files
  set { s with files }
  return result

def readRequested (r : ConvertRequest) (path : Path) : Run Bytes := do
  let s ← get
  match s.files.seen path s.cwd with
  | .error e => throw (.crash (.file ⟨e, path⟩))
  | .ok (some (.file _ _)) =>
    match s.files.read path s.cwd with
    | .ok content => return content
    | .error e =>
      Session.emitFailure (Envelope.internal s.context.id
        ("Could not read ".toList ++ r.file ++ ": ".toList ++ FileError.message ⟨e, path⟩) none)
  | .ok _ =>
    Session.emitFailure (Envelope.notFound s.context.id "File".toList r.file
      (some "Provide the path of an existing source file".toList))

/-- A text rendered as the options say, and these options. -/
def rendering (c : Context) (r : ConvertRequest) (text : Text) :
    Except FlavorError (Document.Options × Document.Rendered) := do
  let flavor ← Flavor.ofName (c.flavor r.flavor)
  let options : Document.Options := ⟨flavor, c.headingLevel r.headingLevel⟩
  return (options, ← Document.render options text)

/-- Render a text, or answer that this is not possible. -/
def renderRequested (c : Context) (r : ConvertRequest) (text : Text) : Run Document.Rendered := do
  match rendering c r text with
  | .ok (options, rendered) =>
    Session.logEvents (Document.events options text rendered)
    return rendered
  | .error e =>
    Session.emitFailure (Envelope.validation (← get).context.id e.message (some "flavor".toList)
      (some "Use --flavor with javadoc, phpdoc or jsdoc".toList))

def writeRequested (output markdown : Text) : Run Path := do
  let target ← expandHome (Path.ofText output)
  let cwd := (← get).cwd
  match ← onFiles (FileTree.save cwd target (Utf8.encode markdown)) with
  | .ok _ =>
    Session.logCommand .info ("Wrote ".toList ++ target.toText)
      [("command".toList, .ofString "convert")]
    return target
  | .error ⟨.nullByte, _⟩ => throw (.crash .nullInPath)
  | .error e =>
    Session.emitFailure (Envelope.internal (← get).context.id
      ("Could not write ".toList ++ output ++ ": ".toList ++ e.message) none)

/-- Bring the Markdown where it is asked for: to a file that the answer names, or into the answer. -/
def deliver (r : ConvertRequest) (markdown : Text) : Run (List (String × Value)) :=
  match r.output with
  | some (d :: o) => do
    let target ← writeRequested (d :: o) markdown
    return [("output", .str target.toText)]
  | _ => return [("markdown", .str markdown)]

def answerConversion (r : ConvertRequest) (path : Path) (start : Float) (rendered : Document.Rendered) :
    Run Unit := do
  let result ← deliver r rendered.markdown
  let warnings := if rendered.totalSections = 0 then
    [.str ("No doc comments found in ".toList ++ r.file)] else []
  Session.emitSuccess (.ofFields ([("source", .str path.toText), ("flavor", .str rendered.flavor),
      ("heading_level", .int rendered.headingLevel),
      ("sections", .int rendered.renderedSections)] ++ result))
    { warnings, telemetry := ← telemetry start }

/-- Convert a file and answer with the Markdown, or with the file that it was written to. -/
def conversion (c : Context) (r : ConvertRequest) : Run Unit := do
  let start := (← get).clock
  let path ← expandHome (Path.ofText r.file)
  let text := Utf8.decodeReplacing (← readRequested r path)
  let rendered ← renderRequested c r text
  answerConversion r path start rendered

def convert (c : Context) (r : ConvertRequest) : Run Unit :=
  Session.asCommand "convert".toList (Session.exitOnInterrupt (conversion c r))

end DocMark.Command
