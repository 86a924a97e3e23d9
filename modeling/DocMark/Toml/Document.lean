import DocMark.Toml.Date

/-!
Settings files as tables of values.

A file is a list of statements, each on lines of its own: a table header, a header of a table in an array,
or a key with its value. A table is opened by one header only, and what a value wrote as a whole cannot be
added to later.
-/

namespace DocMark.Toml

def skipComment? (s : Text) : Option Text :=
  match s with
  | '#' :: r =>
    if (r.takeWhile (· != '\n')).any isControl then none else some (r.dropWhile (· != '\n'))
  | _ => some s

/-- The text after white space, line feeds and comments. -/
def skipLines? : (inComment : Bool) → Text → Option Text
  | _, [] => some []
  | true, c :: r =>
    if c = '\n' then skipLines? false r
    else if isControl c then none
    else skipLines? true r
  | false, c :: r =>
    if isBlank c || c == '\n' then skipLines? false r
    else if c = '#' then skipLines? true r
    else some (c :: r)

/-- Change the table behind a key. Tables on the way are made where there are none; with `lists`, an array
leads to its last table. -/
def atTable? (lists : Bool) (f : Fields → Option Fields) : List Text → Fields → Option Fields
  | [], fs => f fs
  | k :: ks, fs =>
    match fs.get? k with
    | none => (atTable? lists f ks []).map fun inner => fs.set k (.obj inner)
    | some (.obj inner) => (atTable? lists f ks inner).map fun inner => fs.set k (.obj inner)
    | some (.arr xs) =>
      match lists, xs.getLast? with
      | true, some (.obj inner) =>
        (atTable? lists f ks inner).map fun inner => fs.set k (.arr (xs.dropLast ++ [.obj inner]))
      | _, _ => none
    | some _ => none

/-- Add a field that is not there yet. -/
def addField? (key : Text) (v : Value) (fs : Fields) : Option Fields :=
  if fs.has key then none else some (fs ++ [(key, v)])

/-- Add an empty table to the array behind a key. -/
def addTable? (key : Text) (fs : Fields) : Option Fields :=
  match fs.get? key with
  | none => some (fs ++ [(key, .arr [.obj []])])
  | some (.arr xs) => some (fs.set key (.arr (xs ++ [.obj []])))
  | some _ => none

def isCompound : Value → Bool
  | .obj _ => true
  | .arr _ => true
  | _ => false

/-- Whether one of the keys is the given key or leads to it. -/
def coveredBy (keys : List (List Text)) (key : List Text) : Bool := keys.any (·.isPrefixOf key)

mutual

/-- The value at the head of a text. -/
def value : (fuel : Nat) → Text → Except Problem (Value × Text)
  | 0, _ => malformed
  | n + 1, s =>
    let text (read : Option (Text × Text)) : Except Problem (Value × Text) :=
      orMalformed (read.map fun (w, rest) => (.str w, rest))
    match s with
    | '"' :: '"' :: '"' :: r => text (basicBlock? r)
    | '"' :: r => text (basic? r)
    | '\'' :: '\'' :: '\'' :: r => text (literalBlock? r)
    | '\'' :: r => text (literal? r)
    | '[' :: r => (items n r).map fun (xs, rest) => (.arr xs, rest)
    | '\x7b' :: r =>
      match skipBlanks r with
      | '\x7d' :: rest => .ok (.obj [], rest)
      | r => (inlineTable n [] [] r).map fun (fs, rest) => (.obj fs, rest)
    | _ =>
      match dated s with
      | .found v rest => .ok (v, rest)
      | .invalid => malformed
      | .none => plain s

/-- The items of an array up to its closing bracket. A comma may stand behind the last one. -/
def items : (fuel : Nat) → Text → Except Problem (List Value × Text)
  | 0, _ => malformed
  | n + 1, s =>
    match skipLines? false s with
    | some (']' :: rest) => .ok ([], rest)
    | some r =>
      match value n r with
      | .ok (v, r) =>
        match skipLines? false r with
        | some (']' :: rest) => .ok ([v], rest)
        | some (',' :: r) => (items n r).map fun (xs, rest) => (v :: xs, rest)
        | _ => malformed
      | .error e => .error e
    | none => malformed

/-- The fields of a table on one line, after the fields read so far, up to its closing brace. `frozen` are
the keys of the compound values among them. -/
def inlineTable : (fuel : Nat) → (frozen : List (List Text)) → (read : Fields) → Text →
    Except Problem (Fields × Text)
  | 0, _, _, _ => malformed
  | n + 1, frozen, read, s =>
    match key? (s.length + 1) s with
    | some (key, '=' :: r) =>
      match value n (skipBlanks r) with
      | .ok (v, r) =>
        if coveredBy frozen key then malformed
        else
          match atTable? false (addField? (key.getLastD []) v) key.dropLast read with
          | some read =>
            match skipBlanks r with
            | '\x7d' :: rest => .ok (read, rest)
            | ',' :: r => inlineTable n (if isCompound v then key :: frozen else frozen) read (skipBlanks r)
            | _ => malformed
          | none => malformed
      | .error e => .error e
    | _ => malformed

end

structure Draft where
  table : Fields := []
  /-- The key of the table that statements go to. -/
  header : List Text := []
  /-- Tables that no further header may open. -/
  closed : List (List Text) := []
  /-- Tables opened by dotted keys, which the next header closes. -/
  pending : List (List Text) := []
  /-- Values written as a whole. -/
  frozen : List (List Text) := []

namespace Draft

/-- Open the table of a header. -/
def openTable? (d : Draft) (key : List Text) : Option Draft := do
  if d.closed.contains key || coveredBy d.frozen key then failure
  let table ← atTable? true some key d.table
  return { d with table, header := key, closed := key :: d.closed }

/-- Open a further table of an array. What was closed below the array is open again in the new table. -/
def openItem? (d : Draft) (key : List Text) : Option Draft := do
  if coveredBy d.frozen key then failure
  let outside (keys : List (List Text)) : List (List Text) := keys.filter fun k => !key.isPrefixOf k
  let table ← atTable? true (addTable? (key.getLastD [])) key.dropLast d.table
  return { d with table, header := key, closed := key :: outside d.closed, frozen := outside d.frozen }

def setKey? (d : Draft) (key : List Text) (v : Value) : Option Draft := do
  let opened := (List.range (key.length - 1)).map fun i => d.header ++ key.take (i + 1)
  if opened.any (d.closed.contains ·) then failure
  let parent := d.header ++ key.dropLast
  if parent ≠ [] ∧ coveredBy d.frozen parent then failure
  let table ← atTable? true (addField? (key.getLastD []) v) parent d.table
  return { d with
    table
    pending := opened ++ d.pending
    frozen := if isCompound v then (d.header ++ key) :: d.frozen else d.frozen }

def closePending (d : Draft) : Draft := { d with closed := d.pending ++ d.closed, pending := [] }

def statement (d : Draft) (s : Text) : Except Problem (Draft × Text) :=
  match s with
  | '[' :: '[' :: r =>
    match key? (r.length + 1) (skipBlanks r) with
    | some (key, ']' :: ']' :: rest) => orMalformed ((d.closePending.openItem? key).map fun d => (d, rest))
    | _ => malformed
  | '[' :: r =>
    match key? (r.length + 1) (skipBlanks r) with
    | some (key, ']' :: rest) => orMalformed ((d.closePending.openTable? key).map fun d => (d, rest))
    | _ => malformed
  | '#' :: _ => .ok (d, s)
  | _ =>
    match key? (s.length + 1) s with
    | some (key, '=' :: r) => do
      let (v, rest) ← value (2 * r.length + 2) (skipBlanks r)
      orMalformed ((d.setKey? key v).map fun d => (d, rest))
    | _ => malformed

def statements : (fuel : Nat) → Draft → Text → Except Problem Draft
  | 0, _, _ => malformed
  | n + 1, d, s =>
    match skipBlanks s with
    | [] => .ok d
    | '\n' :: r => statements n d r
    | s =>
      match d.statement s with
      | .ok (d, r) =>
        match skipComment? (skipBlanks r) with
        | some [] => .ok d
        | some ('\n' :: r) => statements n d r
        | _ => malformed
      | .error e => .error e

end Draft

/-- Drop the carriage return of every line that ends with one and a line feed. -/
def unixLines : Text → Text
  | [] => []
  | c :: r => if c = '\r' ∧ r.head? = some '\n' then unixLines r else c :: unixLines r

def parse : Reader := fun s =>
  let s := unixLines s
  (Draft.statements (s.length + 1) {} s).map (·.table)

end DocMark.Toml
