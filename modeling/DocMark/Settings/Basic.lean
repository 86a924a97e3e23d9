import DocMark.FileTree
import DocMark.Flavor.Basic
import DocMark.Log.Event
import DocMark.Site.Walk
import DocMark.Text.Digit
import DocMark.Value.Shown

/-!
Settings, and the reading of single settings from values.

A value that is not valid for its setting is reported in the log and leaves the setting as it was. A few
values cannot even be looked at as what the setting needs; these end the loading of settings. So does a number
with too many digits where the text of a value is asked for.
-/

namespace DocMark

/-- How documents are rendered, where sites go, and what is logged. -/
structure Settings where
  flavor : Text := "javadoc".toList
  headingLevel : Int := 1
  extension : Text := "java".toList
  outputDir : Path := ⟨[], ["docs".toList]⟩
  excludes : List Text := []
  logLevel : Text := "INFO".toList
  structuredLogging : Bool := false
  /-- The file that the settings were read from. -/
  configFile : Option Path := none
deriving DecidableEq, Repr

namespace Settings

inductive LoadError where
  /-- A value is of a kind that the setting cannot be taken from. -/
  | wrongType
  /-- A heading level is infinite. -/
  | infinite
  /-- A value holds a number with too many digits. -/
  | tooManyDigits
  /-- The file is not UTF-8. -/
  | undecodable
  /-- The path of the file cannot be looked up. -/
  | file (e : FileError)
  /-- The reader of the file failed, with a fault of some kind. -/
  | reader (kind message : Text)
deriving DecidableEq, Repr

def LoadError.message : LoadError → Text
  | .tooManyDigits => Text.digitLimitMessage
  | .file e => e.message
  | .reader _ message => message
  | _ => []

/-- Loading settings: the events logged so far are kept when it ends early. -/
abbrev Load := ExceptT LoadError (StateM (List Event))

def report (level : Level) (message : Text) : Load Unit :=
  modify fun es => es ++ [⟨level, .settings, message⟩]

/-- Go on with texts, or end the loading because a number has too many digits. -/
def orTooManyDigits {α : Type} : Option α → Load α
  | some a => pure a
  | none => throw .tooManyDigits

/-- Whether a value stands for true. -/
def boolOf (v : Value) : Load Bool :=
  match v with
  | .bool b => return b
  | v => do
    let shown ← orTooManyDigits v.shown?
    return ["true", "1", "yes", "on"].any fun w => w.toList = Text.lower (Text.strip shown)

def flavorOf (v : Value) (default : Text) : Load Text := do
  let shown ← orTooManyDigits v.shown?
  let key := Flavor.lookupKey shown
  if Flavor.named.any (·.name = key) then return key
  report .warning ("Invalid flavor '".toList ++ shown ++ "'. Falling back to '".toList ++ default ++
    "'. Valid options: ".toList ++ Flavor.validNames)
  return default

def wholeOf (v : Value) : Load (Option Int) :=
  match v with
  | .int i => return some i
  | .bool b => return some (if b then 1 else 0)
  | .float f =>
    match Dyadic.ofFloat? f with
    | some d => return some (if d.negative then -(d.whole : Int) else d.whole)
    | none => if f.isNaN then return none else throw .infinite
  | .str s => return Text.readInt? s
  | _ => return none

/-- The heading level that a value stands for: a whole number from 1 to 6. The report of a value that has no
text cannot be written. -/
def headingLevelOf (v : Value) (default : Int) : Load Int := do
  match ← wholeOf v with
  | some n => if 1 ≤ n ∧ n ≤ 6 then return n
  | none => pure ()
  if let some shown := v.shown? then
    report .warning ("Invalid heading level '".toList ++ shown ++ "'. Falling back to ".toList ++
      Text.ofInt default ++ ". Valid range: 1-6".toList)
  return default

def logLevels : List Text := ["DEBUG", "INFO", "WARNING", "ERROR", "CRITICAL"].map String.toList

def logLevelOf (v : Value) (default : Text) : Load Text := do
  let shown ← orTooManyDigits v.shown?
  let level := Text.upper (Text.strip shown)
  if logLevels.contains level then return level
  report .warning ("Invalid log level '".toList ++ shown ++ "'. Falling back to '".toList ++ default ++
    "'".toList)
  return default

/-- The extension that a text stands for; one that comes to nothing leaves the default. -/
def extensionOf (s : Text) (default : Text) : Text :=
  match Site.normalizeExtension s with
  | [] => default
  | e => e

/-- The names in a list: of a text, the parts between commas; of an array or a table, its items or keys.
Names that come to nothing are left out. -/
def namesOf (v : Value) : Load (List Text) := do
  let items ← match v with
    | .str s => pure (Text.splitAt ',' s)
    | .arr xs => orTooManyDigits (xs.mapM Value.shown?)
    | .obj fs => pure (fs.map (·.1))
    | _ => throw .wrongType
  return (items.map Text.strip).filter (· ≠ [])

def pathOf (v : Value) : Load Path :=
  match v with
  | .str s => return Path.ofText s
  | _ => throw .wrongType

/-- The value of a key. In a text or an array the key can be found but has no value. -/
def lookup (data : Value) (key : String) : Load (Option Value) :=
  match data with
  | .obj fs => return Fields.get? fs key.toList
  | .str s => if Text.holds key.toList s then throw .wrongType else return none
  | .arr xs =>
    let isKey (v : Value) : Bool :=
      match v with
      | .str s => s = key.toList
      | _ => false
    if xs.any isKey then throw .wrongType else return none
  | _ => throw .wrongType

/-- What a value that is given for a setting makes of it. A setting that nothing is given for stays as it
is. -/
def given {α β : Type} (value : Option α) (setting : β) (read : α → β → Load β) : Load β :=
  match value with
  | some v => read v setting
  | none => pure setting

end Settings

end DocMark
