import DocMark.FileTree
import DocMark.Text.Case
import DocMark.Text.Digit

/-!
Command line arguments: options with values, and words in between.

An option is given by its long name, with the value behind an equals sign or as the next argument, or by its
letter, with the value right behind it or as the next argument. Two dashes end the options.
-/

namespace DocMark.Command

structure OptionSpec where
  long : Text
  short : Option Char := none
  takesValue : Bool := true

/-- Arguments taken apart: the options with their values and the words, both in order. -/
structure Parsed where
  options : List (Text × Text) := []
  words : List Text := []
deriving DecidableEq, Repr

/-- What an argument that begins with a dash says. -/
inductive Dashed where
  /-- An option with its value. -/
  | complete (long value : Text)
  /-- An option whose value is the next argument. -/
  | awaiting (long : Text)
  | invalid

def readDashed (specs : List OptionSpec) (arg : Text) : Dashed :=
  let name := arg.takeWhile (· != '=')
  match specs.find? (·.long = name), arg.dropWhile (· != '=') with
  | some spec, _ :: value => if spec.takesValue then .complete spec.long value else .invalid
  | some spec, [] => if spec.takesValue then .awaiting spec.long else .complete spec.long []
  | none, _ =>
    match arg with
    | '-' :: c :: rest =>
      match specs.find? (·.short = some c) with
      | some spec => if rest.isEmpty then .awaiting spec.long else .complete spec.long rest
      | none => .invalid
    | _ => .invalid

def Parsed.addOption (p : Parsed) (long value : Text) : Parsed :=
  { p with options := (long, value) :: p.options }

def Parsed.addWord (p : Parsed) (word : Text) : Parsed := { p with words := word :: p.words }

/-- Take arguments apart. `pending` is the option whose value comes next. Unless options and words may be
`mixed`, the first word ends the options. Nothing comes of an option that is unknown or has no value. -/
def parseFrom (specs : List OptionSpec) (mixed : Bool) :
    (pending : Option Text) → List Text → Option Parsed
  | none, [] => some {}
  | some _, [] => none
  | some long, value :: rest =>
    (parseFrom specs mixed none rest).map (·.addOption long value)
  | none, arg :: rest =>
    if arg = "--".toList then some { words := rest }
    else if arg.head? = some '-' ∧ 1 < arg.length then
      match readDashed specs arg with
      | .complete long value => (parseFrom specs mixed none rest).map (·.addOption long value)
      | .awaiting long => parseFrom specs mixed (some long) rest
      | .invalid => none
    else if mixed then (parseFrom specs mixed none rest).map (·.addWord arg)
    else some { words := arg :: rest }

def parse (specs : List OptionSpec) (mixed : Bool) (args : List Text) : Option Parsed :=
  parseFrom specs mixed none args

namespace Parsed

def last? (p : Parsed) (long : String) : Option Text :=
  ((p.options.filter (·.1 = long.toList)).map (·.2)).getLast?

def all (p : Parsed) (long : String) : List Text :=
  (p.options.filter (·.1 = long.toList)).map (·.2)

def has (p : Parsed) (long : String) : Bool := p.options.any (·.1 = long.toList)

end Parsed

inductive ArgumentError where
  | wrong
  /-- A path holds the null character, so that it cannot even be looked up. -/
  | nullInPath
deriving DecidableEq, Repr

abbrev Check (α : Type) := Text → Except ArgumentError α

/-- Check the value of an option. One that was not given passes. -/
def checked {α : Type} (check : Check α) : Option Text → Except ArgumentError (Option α)
  | none => .ok none
  | some v => (check v).map some

/-- Check the options in the order in which they were first given. -/
def checkInOrder (checks : List (String × Check Unit)) (p : Parsed) : Except ArgumentError Unit :=
  (p.options.map (·.1)).eraseDups.forM fun name =>
    match checks.find? (·.1.toList = name) with
    | some (long, check) => (checked check (p.last? long)).map fun _ => ()
    | none => .ok ()

def Check.only {α : Type} (check : Check α) : Check Unit := fun v => (check v).map fun _ => ()

def orWrong {α : Type} : Option α → Except ArgumentError α
  | some a => .ok a
  | none => .error .wrong

/-- The choice that a value names. -/
def choice (choices : List String) (anyCase : Bool) : Check Text := fun v =>
  orWrong ((choices.map String.toList).find? fun c =>
    if anyCase then Text.equalsIgnoringCase c v else c = v)

/-- A heading level: a whole number from 1 to 6. -/
def level : Check Int := fun v =>
  match Text.readInt? v with
  | some n => if 1 ≤ n ∧ n ≤ 6 then .ok n else .error .wrong
  | none => .error .wrong

/-- The node that a written path leads to. A path that ends with a slash or a point leads to directories
only. -/
def node? (tree : FileTree) (cwd : Path) (written : Text) : Option FileTree :=
  if written.isEmpty then none
  else
    match tree.look (Path.ofText written) cwd with
    | .ok (.dir es r) => some (.dir es r)
    | .ok (.file b r) =>
      let final := (Text.splitAt '/' written).getLastD []
      if final = [] ∨ final = ['.'] then none else some (.file b r)
    | .error _ => none

/-- A path that leads to nothing, or to a node that can be read and that is a directory or a file as asked. -/
def pathTo (isDir : Bool) (tree : FileTree) (cwd : Path) : Check Text := fun written =>
  if written.contains '\x00' then .error .nullInPath
  else
    match node? tree cwd written with
    | some n => if n.isDir = isDir ∧ n.rights.read then .ok written else .error .wrong
    | none => .ok written

def filePath : FileTree → Path → Check Text := pathTo false

def dirPath : FileTree → Path → Check Text := pathTo true

end DocMark.Command
