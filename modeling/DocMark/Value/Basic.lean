import DocMark.Text.Basic

/-!
Values of settings files, log fields and answers.

An object keeps its fields in the order in which their keys were first set.
-/

namespace DocMark

inductive Value where
  | null
  | bool (b : Bool)
  | int (i : Int)
  | float (f : Float)
  | str (s : Text)
  | arr (items : List Value)
  | obj (fields : List (Text × Value))
  /-- A value that has no form of its own in data formats: it is known by its plain text and by its
  text inside other values. -/
  | other (shown quoted : Text)

abbrev Fields := List (Text × Value)

namespace Fields

def get? (fs : Fields) (key : Text) : Option Value := (fs.find? (·.1 = key)).map (·.2)

def has (fs : Fields) (key : Text) : Bool := fs.any (·.1 = key)

/-- Set the value of a key; a new key goes to the end, and an old one stays in its place. -/
def set (key : Text) (v : Value) : Fields → Fields
  | [] => [(key, v)]
  | (k, w) :: r => if k = key then (k, v) :: r else (k, w) :: set key v r

/-- Set the value of a key that has none yet. -/
def setDefault (fs : Fields) (key : Text) (v : Value) : Fields :=
  if fs.has key then fs else fs ++ [(key, v)]

/-- Set the fields of `more` one after another. -/
def update (fs more : Fields) : Fields := more.foldl (fun fs (k, v) => set k v fs) fs

end Fields

namespace Value

def ofString (s : String) : Value := .str s.toList

def ofFields (fs : List (String × Value)) : Value := .obj (fs.map fun (k, v) => (k.toList, v))

/-- Whether a value counts as present: not null, false, zero or empty. -/
def truthy : Value → Bool
  | .null => false
  | .bool b => b
  | .int i => i != 0
  | .float f => f != 0
  | .str s => !s.isEmpty
  | .arr xs => !xs.isEmpty
  | .obj fs => !fs.isEmpty
  | .other _ _ => true

end Value

end DocMark
