import DocMark.Command.Options
import DocMark.FileTree.Listing

/-!
The program.

It takes its command and options as arguments and its surroundings as one JSON object on the standard input:
the files as a listing, the working directory, the environment and the clock. It prints the answer and the
log, and then the listing of the files that it wrote, if there are any.
-/

namespace DocMark

/-- The session that a JSON object describes. The tokens of its identities are drawn from a seed. -/
def Session.ofValue (seed : Nat) (v : Value) : Session :=
  let fields : Fields := match v with
    | .obj fs => fs
    | _ => []
  let table (key : String) : Fields := match fields.get? key.toList with
    | some (.obj fs) => fs
    | _ => []
  let cwd : Path := match fields.get? "cwd".toList with
    | some (.str s) => Path.ofText s
    | _ => Path.ofText "/work".toList
  { files := FileTree.ofListing cwd (table "files")
    cwd
    home := match fields.get? "home".toList with
      | some (.str s) => Path.ofText s
      | _ => cwd
    env := (table "env").map fun (k, v) => (k, v.shown?.getD [])
    reader := Toml.parse
    tokens := fun n => Text.hex 12 (seed + n)
    clock := match fields.get? "clock".toList with
      | some (.float f) => f
      | some (.int i) => Float.ofInt i
      | _ => 0.0 }

def Command.Ending.status (e : Command.Ending) : UInt32 :=
  match e.exitCode with
  | .int i => UInt32.ofNat i.toNat
  | .null => 0
  | _ => 1

/-- Read the surroundings, run the command and print what came of it. -/
def run (args : List String) : IO UInt32 := do
  let input ← (← IO.getStdin).getLine
  let seed ← IO.rand 0 (Nat.pow 16 12 - 1)
  let before := Session.ofValue seed ((Json.parse? input.toList).getD .null)
  let (ending, after) := Command.invoke .standard (args.map String.toList) before
  for line in after.stdout do
    IO.println (String.ofList line)
  for line in after.stderr do
    IO.eprintln (String.ofList line.text)
  match FileTree.changes before.cwd before.files after.files with
  | [] => pure ()
  | files => IO.println (String.ofList ((Value.obj files).json .compact))
  return ending.status

end DocMark

def main (args : List String) : IO UInt32 := DocMark.run args
