import DocMark.Log.Event
import DocMark.Log.Template
import DocMark.Timestamp
import DocMark.Value.Json

/-!
Log records and their two written forms: JSON for machines and a line of text for people.

A record is a table of fields that may be set to any value. Some values cannot be written in the place of a
field, and then the whole record is not written.
-/

namespace DocMark

structure Location where
  file : Value
  line : Value
  function : Value := .null

/-- What a record says about an error. -/
inductive ErrorNote where
  /-- The text of an error that is reported. -/
  | text (t : Text)
  /-- A value in the place of an error; one that is null, false, zero or empty says nothing. -/
  | value (v : Value)

structure Record where
  /-- The clock reading. -/
  created : Value
  /-- The name of the level. -/
  level : Value
  logger : Value
  /-- The template of the message, and the arguments that fill it. -/
  message : Value
  args : Template.Args := .several []
  location : Option Location := none
  /-- The identity of the run, if it was set. -/
  id : Option Value := none
  command : Option Value := none
  elapsed : Option Value := none
  error : ErrorNote := .value .null
  extra : Fields := []

inductive RecordError where
  | time (e : TimeError)
  | template (e : Template.TemplateError)
  /-- A value is of the wrong type. -/
  | wrongType
  /-- A value lacks what its place needs. -/
  | unsuitable
  /-- An array or a text in the place of an error is too short. -/
  | tooShort (kind : String)
  /-- A table in the place of an error lacks a key. -/
  | noKey (key : Nat)
deriving DecidableEq, Repr

def RecordError.message : RecordError → Text
  | .time e => e.message
  | .template e => e.message
  | .wrongType => []
  | .unsuitable => []
  | .tooShort kind => kind.toList ++ " index out of range".toList
  | .noKey key => Text.ofNat key

/-- The name of a level that is given as any value: a number by what it counts, a name by its number, and
anything else by its text, if it has one. -/
def Level.label? (v : Value) : Option Value :=
  let named : List (Level × Text) :=
    ([0, .debug, .info, .warning, .error, .critical] : List Level).map fun l => (l, l.name)
  let byNumber : Option Text := match v with
    | .int i => named.lookup i
    | .bool b => named.lookup (if b then 1 else 0)
    | .float f => (named.find? fun (l, _) => Float.ofInt l == f).map (·.2)
    | _ => none
  let byName : Option Level := match v with
    | .str s => (Level.numbers.find? fun (w, _) => w.toList = s).map (·.2)
    | _ => none
  match byNumber, byName with
  | some name, _ => some (.str name)
  | none, some l => some (.int l)
  | none, none => v.shown?.map fun t => .str ("Level ".toList ++ t)

namespace Record

/-- Fields that every record has and that are no extra. -/
def standardFields : List Text :=
  ["name", "msg", "args", "levelname", "levelno", "pathname", "filename", "module", "exc_info",
    "exc_text", "stack_info", "lineno", "funcName", "created", "msecs", "relativeCreated", "thread",
    "threadName", "processName", "process", "taskName", "message", "asctime"].map String.toList

def contextFields : List Text := ["correlation_id", "command", "elapsed_ms"].map String.toList

def isExtra (key : Text) : Bool := !standardFields.contains key && !contextFields.contains key

/-- Set a field by its name. Standard fields that no form shows are left alone. -/
def set (r : Record) (key : Text) (v : Value) : Record :=
  match String.ofList key with
  | "created" => { r with created := v }
  | "levelname" => { r with level := v }
  | "name" => { r with logger := v }
  | "msg" => { r with message := v }
  | "args" => { r with args := .single v }
  | "filename" => { r with location := r.location.map fun l => { l with file := v } }
  | "lineno" => { r with location := r.location.map fun l => { l with line := v } }
  | "funcName" => { r with location := r.location.map fun l => { l with function := v } }
  | "exc_info" => { r with error := .value v }
  | "correlation_id" => { r with id := some v }
  | "command" => { r with command := some v }
  | "elapsed_ms" => { r with elapsed := some v }
  | _ => if isExtra key then { r with extra := r.extra.set key v } else r

def withFields (r : Record) (fs : Fields) : Record := fs.foldl (fun r (k, v) => r.set k v) r

/-- What is written for a context that is not set. -/
def unset : Value := .ofString "-"

def time (r : Record) : Except RecordError Timestamp :=
  match r.created with
  | .int i => (Timestamp.ofParts i 0).mapError .time
  | .bool b => (Timestamp.ofParts (if b then 1 else 0) 0).mapError .time
  | .float f => (Timestamp.ofClock f).mapError .time
  | _ => .error .wrongType

def textOf (v : Value) : Except RecordError Text :=
  (Template.orTooManyDigits v.shown?).mapError .template

def messageText (r : Record) : Except RecordError Text := do
  (Template.fill (← textOf r.message) r.args).mapError .template

/-- The text of the error of a record. A value in the place of an error needs three items, and only a null
with nothing behind it has a text. -/
def errorText? (r : Record) : Except RecordError (Option Text) :=
  match r.error with
  | .text t => .ok (some t)
  | .value v =>
    if !v.truthy then .ok none
    else
      match v with
      | .arr (_ :: .null :: .null :: _) => .ok (some "NoneType: None".toList)
      | .arr (_ :: _ :: _ :: _) => .error .unsuitable
      | .arr _ => .error (.tooShort "list")
      | .str (_ :: _ :: _ :: _) => .error .unsuitable
      | .str _ => .error (.tooShort "string")
      | .obj _ => .error (.noKey 2)
      | _ => .error .wrongType

structure StructuredOptions where
  extra : Bool := true
  error : Bool := true

/-- The record as one line of JSON. -/
def structured (o : StructuredOptions) (r : Record) : Except RecordError Text := do
  let timestamp ← (← r.time).iso.mapError .time
  let message ← r.messageText
  let location := match r.location with
    | some l => [("location", .ofFields [("file", l.file), ("line", l.line),
        ("function", l.function)])]
    | none => []
  let error : List (String × Value) ←
    if o.error then
      match ← r.errorText? with
      | some e => pure [("exception", .str e)]
      | none => pure []
    else pure []
  let extra := if o.extra && !r.extra.isEmpty then [("extra", .obj r.extra)] else []
  return (Value.ofFields ([("timestamp", .str timestamp), ("level", r.level), ("logger", r.logger),
    ("message", .str message)] ++ location ++
    [("correlation_id", r.id.getD unset), ("command", r.command.getD unset),
      ("elapsed_ms", r.elapsed.getD (.float 0.0))] ++ error ++ extra)).json .spaced

structure HumanOptions where
  timestamp : Bool := true
  location : Bool := false

/-- The name of a logger without the name that all loggers stand under. -/
def shortName (name : Text) : Text := ((Channel.root ++ ['.']).isPrefixOf? name).getD name

def loggerText (r : Record) : Except RecordError Text :=
  match r.logger with
  | .str s => .ok (shortName s)
  | _ => .error .unsuitable

/-- Whether the identity of a run is worth showing. -/
def showsId : Value → Bool
  | .str s => !s.isEmpty && s != ['-']
  | v => v.truthy

/-- The record as text for people; an error starts on a new line. -/
def human (o : HumanOptions) (r : Record) : Except RecordError Text := do
  let timestamp : List Text ←
    if o.timestamp then do pure [← (← r.time).plain.mapError .time] else pure []
  let level ← textOf r.level
  let id := r.id.getD unset
  let id : List Text ← if showsId id then do pure ['[' :: (← textOf id) ++ [']']] else pure []
  let logger ← r.loggerText
  let message ← r.messageText
  let location : List Text ← match o.location, r.location with
    | true, some l => do pure ['(' :: (← textOf l.file) ++ ':' :: (← textOf l.line) ++ [')']]
    | _, _ => pure []
  let parts := timestamp ++ ['[' :: level ++ [']']] ++ id ++ [logger ++ [':'], message] ++ location
  let error : Text := match ← r.errorText? with
    | some e => '\n' :: e
    | none => []
  return Text.joinWith [' '] parts ++ error

end Record

end DocMark
