import DocMark.Session.Output

/-!
Command contexts: the settings of one invocation, with its options laid over the loaded settings.
-/

namespace DocMark.Session

/-- Load settings, and log what there is to say about them. -/
def loadSettings (asked : Option Text) : Run Settings := do
  let s ← get
  let (result, events) := (Settings.load s.reader s.files s.cwd s.env asked).run.run []
  logEvents events
  match result with
  | .ok settings => return settings
  | .error e => throw (.crash (.settings e))

/-- The settings of the session. They are loaded when first needed, and kept if that succeeds. -/
def sharedSettings : Run Settings := do
  match (← get).settings with
  | some settings => return settings
  | none =>
    let settings ← loadSettings none
    modify fun s => { s with settings := some settings }
    return settings

end DocMark.Session

namespace DocMark.Command

/-- The settings of one invocation. -/
structure Context where
  settings : Settings
  givenLogLevel : Option Text := none
  givenLogFormat : Option Text := none

namespace Context

/-- The text that was given, if it is not empty, or else the configured one. -/
def orConfigured (given : Option Text) (configured : Text) : Text :=
  match given with
  | some (c :: r) => c :: r
  | _ => configured

/-- The context of an invocation. A settings file that was asked for is read anew; otherwise the settings
of the session serve. -/
def create (configFile logLevel logFormat : Option Text) : Run Context := do
  let settings ← match configFile with
    | some (c :: r) => Session.loadSettings (some (c :: r))
    | _ => Session.sharedSettings
  return ⟨settings, logLevel, logFormat⟩

def logLevel (c : Context) : Text :=
  Text.upper (orConfigured c.givenLogLevel c.settings.logLevel)

def logFormat (c : Context) : Text :=
  orConfigured c.givenLogFormat
    (if c.settings.structuredLogging then "structured".toList else "human".toList)

def flavor (c : Context) (given : Option Text) : Text := orConfigured given c.settings.flavor

def headingLevel (c : Context) (given : Option Int) : Int := given.getD c.settings.headingLevel

def extension (c : Context) (given : Option Text) : Text := orConfigured given c.settings.extension

def outputDir (c : Context) (given : Option Text) : Path :=
  match given with
  | some (d :: r) => Path.ofText (d :: r)
  | _ => c.settings.outputDir

def excludes (c : Context) (given : List Text) : List Text := c.settings.excludes ++ given

def setUpLog (c : Context) : Run Unit := do
  let _ ← Session.configureLog (.name c.logLevel) (c.logFormat == "structured".toList) true

/-- The context in use, if one was set. -/
def current (registered : Option Context) : Except Text Context :=
  match registered with
  | some c => .ok c
  | none => .error "No CLI context available. Call set_context() first.".toList

end Context

end DocMark.Command
