import DocMark.Command.Generate

/-!
The command line: options for all commands, the name of a command, and its own options.

The order matters: the options for all commands are read and the command is looked up, then settings are loaded
and the log is set up, and only then the command's own arguments are read. How arguments are read is up to the
reader that is given.
-/

namespace DocMark.Command

def version : Text := "0.1.0".toList

def flavorChoices : List String := ["javadoc", "jsdoc", "phpdoc"]

inductive Name where
  | convert
  | generate
  | version
deriving DecidableEq, Repr

/-- What the arguments of the program say: the options for all commands, and a command with its own
arguments. -/
structure Invocation where
  config : Option Text := none
  logLevel : Option Text := none
  logFormat : Option Text := none
  name : Name
  args : List Text := []

/-- A reader of arguments. It gives what the arguments say, or ends the program. -/
structure ArgumentReader where
  shared : List Text → Run Invocation
  convert : List Text → Run ConvertRequest
  generate : List Text → Run GenerateRequest
  version : List Text → Run Unit

def showVersion (c : Context) : Run Unit :=
  Session.emitSuccess (.ofFields [("version", .str version), ("name", .ofString "doc2md"),
    ("flavors", .arr (flavorChoices.map .ofString)),
    ("config_file", Envelope.textOrNull (c.settings.configFile.map Path.toText))]) {}

def runNamed (reader : ArgumentReader) (c : Context) (args : List Text) : Name → Run Unit
  | .convert => do convert c (← reader.convert args)
  | .generate => do generate c (← reader.generate args)
  | .version => do
    reader.version args
    showVersion c

def cli (reader : ArgumentReader) (args : List Text) : Run Unit := do
  let i ← reader.shared args
  let context ← Context.create i.config i.logLevel i.logFormat
  context.setUpLog
  runNamed reader context i.args i.name

structure Ending where
  exitCode : Value
  fault : Option Fault := none

def Ending.of : Except Halt Unit → Ending
  | .ok _ => ⟨.int 0, none⟩
  | .error (.exit code) => ⟨code, none⟩
  | .error (.crash f) => ⟨.int 1, some f⟩
  | .error .interrupt => ⟨.int Session.interruptedCode, none⟩

/-- Run the program in a session that may have seen other runs: what these printed is gone, and their sink
with it. -/
def invoke (reader : ArgumentReader) (args : List Text) (s : Session) : Ending × Session :=
  let s := { s with
    stdout := []
    stderr := []
    log := match s.log with
      | .live _ => .stale
      | log => log }
  let (result, s) := (cli reader args).run.run s
  (Ending.of result, s)

end DocMark.Command
