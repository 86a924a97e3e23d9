import DocMark.Log.Record
import DocMark.Settings.Load

/-!
Sessions: all that a command can see and change.

A session holds the files, the environment, the clock, the settings once loaded, the state of the log and
the context of the current run, and collects what is printed. A command may end early, with an exit code
or with a fault; the session keeps what happened before.

The context of a run is what its log lines and its answer have in common.
-/

namespace DocMark

/-- The identity, the command and the start of a run. Outside of any run all are empty. -/
structure RunContext where
  id : Text := []
  command : Text := []
  start : Float := 0.0

namespace RunContext

/-- Milliseconds between two clock readings; none when the first is not set. -/
def millisBetween (start now : Float) : Float :=
  if start ≤ 0.0 then 0.0 else (now - start) * 1000.0

/-- Milliseconds since the start of the run, to two decimal places. -/
def elapsed (c : RunContext) (now : Float) : Float := roundToPlaces 2 (millisBetween c.start now)

end RunContext

structure Sink where
  level : Level
  structured : Bool
  /-- Records get the context of the run. -/
  addContext : Bool := true
deriving DecidableEq, Repr

inductive LogState where
  /-- No sink was set up: warnings are printed as they are. -/
  | unset
  /-- The sink belongs to an earlier run, and nobody sees what is written there. -/
  | stale
  | live (sink : Sink)
deriving DecidableEq, Repr

inductive Printed where
  /-- A record written by a sink. -/
  | record (text : Text)
  /-- A message without a sink. -/
  | bare (text : Text)
  /-- Data of a command. -/
  | data (text : Text)
deriving DecidableEq, Repr

def Printed.text : Printed → Text
  | .record t => t
  | .bare t => t
  | .data t => t

structure Session where
  files : FileTree
  cwd : Path
  home : Path
  /-- The home directories of users by name. -/
  users : List (RawText × Path) := []
  env : Env := []
  /-- How the text of a settings file is read. -/
  reader : Toml.Reader
  clock : Float
  /-- The tokens that identities are made with, one after another. -/
  tokens : Nat → Text
  /-- The number of identities given out. -/
  issued : Nat := 0
  /-- The settings, once they were loaded. -/
  settings : Option Settings := none
  log : LogState := .unset
  context : RunContext := {}
  stdout : List Text := []
  stderr : List Printed := []

inductive Fault where
  | settings (e : Settings.LoadError)
  | unknownLevel (name : Text)
  | noHome
  | nullInPath
  | file (e : FileError)
  /-- A log field would hide a standard one. -/
  | overwrite (key : Text)
  | clockNotANumber
  | clockInfinite
  /-- A fault of another kind, with its message. -/
  | other (kind message : Text)
deriving DecidableEq, Repr

def Fault.message : Fault → Text
  | .settings e => e.message
  | .unknownLevel name => "Unknown level: ".toList ++ Text.quoted name
  | .noHome => "Could not determine home directory.".toList
  | .nullInPath => "embedded null byte".toList
  | .file e => e.message
  | .overwrite key => "Attempt to overwrite ".toList ++ Text.quoted key ++ " in LogRecord".toList
  | .clockNotANumber => "cannot convert float NaN to integer".toList
  | .clockInfinite => "cannot convert float infinity to integer".toList
  | .other _ message => message

inductive Halt where
  | exit (code : Value)
  | crash (fault : Fault)
  /-- The user stopped it. -/
  | interrupt

abbrev Run := ExceptT Halt (StateM Session)

namespace Session

/-- Give out a new identity: a word and the next token. -/
def issueId (word : Text) : Run Text := do
  let s ← get
  set { s with issued := s.issued + 1 }
  return word ++ '_' :: s.tokens s.issued

def runWord : Text := "run".toList

def commandWord : Text := "cli".toList

/-- The identity of the current run, or a new one of a command. -/
def requestId : Run Text := do
  match (← get).context.id with
  | [] => issueId commandWord
  | id => return id

def print (p : Printed) : Run Unit := modify fun s => { s with stderr := s.stderr ++ [p] }

def tick (seconds : Float) : Run Unit := modify fun s => { s with clock := s.clock + seconds }

/-- Start a run and give back the context around it. An identity that is missing or empty is given out
anew. -/
def openRun (word : Text) (id command : Option Text) : Run RunContext := do
  let id ← match id with
    | some (c :: r) => pure (c :: r)
    | _ => issueId word
  let s ← get
  set { s with context := ⟨id, command.getD [], s.clock⟩ }
  return s.context

def closeRun (around : RunContext) : Run Unit := modify fun s => { s with context := around }

/-- Work inside a run. The context around it is restored however the work ends. -/
def inRun {α : Type} (word : Text) (id command : Option Text) (body : Run α) : Run α := do
  let around ← openRun word id command
  let result ← ExceptT.lift body.run
  closeRun around
  ExceptT.mk (pure result)

end Session

end DocMark
