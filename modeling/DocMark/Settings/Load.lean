import DocMark.Settings.Basic
import DocMark.Toml.Document

/-!
Loading settings: defaults, then a settings file, then the environment.

Each layer overrides single settings of the layers before it. The file is the one asked for, or the one the
environment names, or the first of the default files that exists. A file that is missing or malformed is
reported and acts as an empty one. How the text of a file is read is up to the reader that is given.
-/

namespace DocMark

abbrev Env := List (Text × Text)

/-- The value of a variable; an empty one counts as unset. -/
def Env.get? (env : Env) (name : String) : Option Text :=
  match env.lookup name.toList with
  | some [] => none
  | v => v

namespace Settings

def defaultFiles : List Path := [⟨[], ["doc2md.toml".toList]⟩, ⟨[], [".doc2md.toml".toList]⟩]

/-- The settings of the table on rendering: the flavor and the heading level. -/
def renderTable (data : Value) (flavor : Text) (level : Int) : Load (Text × Int) := do
  let flavor ← given (← lookup data "flavor") flavor flavorOf
  let level ← given (← lookup data "heading_level") level headingLevelOf
  return (flavor, level)

/-- The settings of the table on sites: extension, output directory and excluded names. -/
def generateTable (data : Value) (extension : Text) (outputDir : Path) (excludes : List Text) :
    Load (Text × Path × List Text) := do
  let extension ← given (← lookup data "extension") extension fun v e => do
    return extensionOf (← orTooManyDigits v.shown?) e
  let outputDir ← given (← lookup data "output_dir") outputDir fun v _ => pathOf v
  let excludes ← given (← lookup data "excludes") excludes fun v _ => namesOf v
  return (extension, outputDir, excludes)

/-- The settings of the table on logging: the level, and whether lines are structured. -/
def loggingTable (data : Value) (level : Text) (structured : Bool) : Load (Text × Bool) := do
  let level ← given (← lookup data "level") level logLevelOf
  let structured ← given (← lookup data "structured") structured fun v _ => boolOf v
  return (level, structured)

/-- Lay the tables of a file over settings. -/
def ofTables (s : Settings) (data : Fields) : Load Settings := do
  let render ← given (data.get? "render".toList) (s.flavor, s.headingLevel)
    fun v d => renderTable v d.1 d.2
  let generate ← given (data.get? "generate".toList) (s.extension, s.outputDir, s.excludes)
    fun v d => generateTable v d.1 d.2.1 d.2.2
  let logging ← given (data.get? "logging".toList) (s.logLevel, s.structuredLogging)
    fun v d => loggingTable v d.1 d.2
  return { s with
    flavor := render.1, headingLevel := render.2
    extension := generate.1, outputDir := generate.2.1, excludes := generate.2.2
    logLevel := logging.1, structuredLogging := logging.2 }

def ofFile (reader : Toml.Reader) (tree : FileTree) (cwd p : Path) (s : Settings) : Load Settings := do
  let failed (reason : Text) : Load Settings := do
    report .error ("Error loading config file ".toList ++ p.toText ++ ": ".toList ++ reason)
    return s
  match tree.seen p cwd with
  | .error e => throw (.file ⟨e, p⟩)
  | .ok none =>
    report .warning ("Config file not found: ".toList ++ p.toText)
    return s
  | .ok (some _) =>
    match tree.read p cwd with
    | .error e => failed (FileError.message ⟨e, p⟩)
    | .ok content =>
      match Utf8.decode? content with
      | none => throw .undecodable
      | some text =>
        match reader text with
        | .ok data => ofTables { s with configFile := some p } data
        | .error (.malformed reason) => failed reason
        | .error (.fault kind message) => throw (.reader kind message)

def ofEnv (env : Env) (s : Settings) : Load Settings := do
  let flavor ← given (env.get? "DOC2MD_FLAVOR") s.flavor fun v => flavorOf (.str v)
  let headingLevel ← given (env.get? "DOC2MD_HEADING_LEVEL") s.headingLevel fun v => headingLevelOf (.str v)
  let extension ← given (env.get? "DOC2MD_EXTENSION") s.extension fun v e => pure (extensionOf v e)
  let outputDir ← given (env.get? "DOC2MD_OUTPUT_DIR") s.outputDir fun v _ => pure (Path.ofText v)
  let excludes ← given (env.get? "DOC2MD_EXCLUDE") s.excludes fun v _ => namesOf (.str v)
  let logLevel ← given (env.get? "DOC2MD_LOG_LEVEL") s.logLevel fun v => logLevelOf (.str v)
  let structuredLogging ← given (env.get? "DOC2MD_STRUCTURED_LOGGING") s.structuredLogging
    fun v _ => boolOf (.str v)
  return { s with flavor, headingLevel, extension, outputDir, excludes, logLevel, structuredLogging }

def firstSeen (tree : FileTree) (cwd : Path) : List Path → Except FileError (Option Path)
  | [] => .ok none
  | p :: rest =>
    match tree.seen p cwd with
    | .error e => .error ⟨e, p⟩
    | .ok (some _) => .ok (some p)
    | .ok none => firstSeen tree cwd rest

/-- The settings file to read: the one asked for, the one that the environment names, or the first default
file that exists. -/
def fileToRead (tree : FileTree) (cwd : Path) (env : Env) (asked : Option Text) :
    Except FileError (Option Path) :=
  match asked with
  | some (c :: r) => .ok (some (Path.ofText (c :: r)))
  | _ =>
    match env.get? "DOC2MD_CONFIG_FILE" with
    | some name => .ok (some (Path.ofText name))
    | none => firstSeen tree cwd defaultFiles

/-- Load settings: defaults, file, environment. -/
def load (reader : Toml.Reader) (tree : FileTree) (cwd : Path) (env : Env) (asked : Option Text) :
    Load Settings := do
  match fileToRead tree cwd env asked with
  | .error e => throw (.file e)
  | .ok file => ofEnv env (← given file {} (ofFile reader tree cwd))

end Settings

end DocMark
