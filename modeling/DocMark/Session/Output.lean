import DocMark.Envelope
import DocMark.Session.Basic

/-!
What a session prints: the log, and the answers of commands.

A record is written if its level reaches the level of the sink. One that cannot be written is dropped. Before
a sink is set up, warnings and graver messages are printed as they are.

An answer is one envelope on one line. It goes to the standard output for a success, and to the error output
with exit code 1 for a failure.
-/

namespace DocMark.Session

/-- A log level given by its number or by its name. -/
inductive LevelName where
  | number (n : Int)
  | name (s : Text)

def levelOf : LevelName → Run Level
  | .number n => pure n
  | .name s =>
    match Level.numbers.find? fun (w, _) => w.toList = Text.upper s with
    | some (_, l) => pure l
    | none => throw (.crash (.unknownLevel (Text.upper s)))

def configureLog (level : LevelName) (structured addContext : Bool) : Run Sink := do
  let sink : Sink := ⟨← levelOf level, structured, addContext⟩
  modify fun s => { s with log := .live sink }
  return sink

/-- The name of a logger below the root of all loggers. -/
def loggerName (name : Text) : Text :=
  if Text.startsWith Channel.root name then name else Channel.root ++ '.' :: name

def isBelowRoot (logger : Text) : Bool :=
  logger == Channel.root || Text.startsWith (Channel.root ++ ['.']) logger

/-- The least level that is looked at: that of the sink, and warnings where none is set. -/
def threshold (log : LogState) (logger : Text) : Level :=
  match log with
  | .live sink => if isBelowRoot logger && sink.level ≠ 0 then sink.level else .warning
  | _ => .warning

/-- The record with the context of the current run. -/
def addContext (s : Session) (r : Record) : Record :=
  let orUnset (t : Text) : Value := if t.isEmpty then Record.unset else .str t
  { r with
    id := some (orUnset s.context.id)
    command := some (orUnset s.context.command)
    elapsed := some (.float (s.context.elapsed s.clock)) }

/-- The text that a sink writes for a record, if the record can be written. -/
def written? (s : Session) (sink : Sink) (r : Record) : Except RecordError Text :=
  let r := if sink.addContext then s.addContext r else r
  if sink.structured then r.structured {} else r.human {}

/-- Make a record of a message. The clock has to show a finite time. -/
def makeRecord (logger : Text) (level : Level) (message : Text) (fields : Fields) : Run Record := do
  let s ← get
  if s.clock.isNaN then throw (.crash .clockNotANumber)
  if s.clock.isInf then throw (.crash .clockInfinite)
  match fields.find? fun (k, _) => Record.standardFields.contains k with
  | some (k, _) => throw (.crash (.overwrite k))
  | none => pure ()
  let record : Record := {
    created := .float s.clock
    level := .str level.name
    logger := .str logger
    message := .str message }
  return record.withFields fields

def logAs (logger : Text) (level : Level) (message : Text) (fields : Fields) : Run Unit := do
  let s ← get
  if level < threshold s.log logger then return
  let record ← makeRecord logger level message fields
  let handled := isBelowRoot logger
  match s.log, handled with
  | .live sink, true =>
    if sink.level ≤ level then
      match s.written? sink record with
      | .ok text => print (.record text)
      | .error _ => pure ()
  | .stale, true => pure ()
  | _, _ => print (.bare message)

def logEvents (es : List Event) : Run Unit :=
  es.forM fun e => logAs e.channel.name e.level e.message []

/-- Log a message of a command, with its fields in one table. -/
def logCommand (level : Level) (message : Text) (fields : Fields) : Run Unit :=
  logAs (loggerName "cli".toList) level message
    (if fields.isEmpty then [] else [("cli_context".toList, .obj fields)])

def isSuccess : Value → Bool
  | .null => true
  | .bool b => !b
  | .int i => i == 0
  | .float f => f == 0.0
  | _ => false

/-- Whether a command succeeded, and the message of its fault. -/
def outcome {α : Type} : Except Halt α → Bool × Option Text
  | .ok _ => (true, none)
  | .error (.exit code) => (isSuccess code, none)
  | .error (.crash f) => (false, some f.message)
  | .error .interrupt => (true, none)

/-- Work as a command: in a run of its own, with a log record at its start and at its end. -/
def asCommand {α : Type} (name : Text) (body : Run α) : Run α :=
  inRun commandWord none (some name) do
    logCommand .debug ("CLI command started: ".toList ++ name) [("command".toList, .str name)]
    let result ← ExceptT.lift body.run
    let (success, error) := outcome result
    let s ← get
    logCommand .debug ("CLI command completed: ".toList ++ name)
      [("command".toList, .str name), ("success".toList, .bool success),
        ("duration_ms".toList, .float (s.context.elapsed s.clock)),
        ("error".toList, match error with
          | some e => .str e
          | none => .null)]
    ExceptT.mk (pure result)

def interruptedCode : Int := 130

def exitOnInterrupt {α : Type} (body : Run α) : Run α := do
  match ← ExceptT.lift body.run with
  | .error .interrupt => throw (.exit (.int interruptedCode))
  | result => ExceptT.mk (pure result)

def emit (v : Value) (toStderr : Bool := false) : Run Unit := do
  let text := v.json .compact
  if toStderr then print (.data text)
  else modify fun s => { s with stdout := s.stdout ++ [text] }

/-- Answer with a success. Data other than an object are put under one key. -/
def emitSuccess (data : Value) (d : Envelope.Details) : Run Unit := do
  let fields : Fields := match data with
    | .obj fs => fs
    | v => [("result".toList, v)]
  let id ← requestId
  emit (Envelope.ofSuccess (← get).context.id fields [] { d with requestId := some id }).toValue

def emitFailure {α : Type} (e : Envelope) : Run α := do
  let id ← requestId
  emit (e.withRequestId id).toValue true
  throw (.exit (.int 1))

end DocMark.Session
