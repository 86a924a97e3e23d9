import DocMark.Log.Slot

/-!
Message templates: texts with slots that arguments fill.

A slot is a percent sign, perhaps a key in parentheses, flags, a width, a precision, and a letter for the
kind of text. A star as the width or the precision takes it from the arguments. Two percent signs stand for
one.
-/

namespace DocMark.Template

/-- The arguments of a template: several for slots in order, or a single value. A table as the single value
also serves slots by key. -/
inductive Args where
  | several (args : List Value)
  | single (v : Value)

namespace Args

/-- Whether there is nothing to fill slots with. -/
def isEmpty : Args → Bool
  | .several args => args.isEmpty
  | .single v => !v.truthy

def queue : Args → List Value
  | .several args => args
  | .single v => [v]

/-- Whether all arguments have to be used: a table or an array need not be. -/
def allNeeded : Args → Bool
  | .single (.obj _) => false
  | .single (.arr _) => false
  | _ => true

/-- The arguments in a list. A table that is alone in it and not empty is a single value. -/
def ofList : List Value → Args
  | [.obj (f :: fs)] => .single (.obj (f :: fs))
  | args => .several args

end Args

/-- Filling: the state is the queue of arguments left for slots in order. -/
abbrev Fill := StateT (List Value) (Except TemplateError)

def nextArg : Fill Value := do
  match ← get with
  | [] => throw .mismatch
  | v :: queue =>
    set queue
    return v

/-- The next argument, which has to be a whole number with fewer than `bits` binary digits. -/
def nextCount (bits : Nat) : Fill Int := do
  let n ← exactOf (← nextArg)
  if n.natAbs < Nat.pow 2 bits then return n else throw .outOfRange

def flags (s : Slot) : Text → Slot × Text
  | [] => (s, [])
  | c :: r =>
    match c with
    | '-' => flags { s with left := true } r
    | '0' => flags { s with zero := true } r
    | '+' => flags { s with plus := true } r
    | ' ' => flags { s with blank := true } r
    | '#' => flags { s with alternate := true } r
    | _ => (s, c :: r)

def isDecimal (c : Char) : Bool := '0' ≤ c && c ≤ '9'

/-- A number at the head of a text; nothing stands for zero. -/
def count (s : Text) : Nat × Text :=
  ((s.takeWhile isDecimal).foldl (fun n c => 10 * n + (c.toNat - 48)) 0, s.dropWhile isDecimal)

/-- The width of a slot; a negative one fills up on the right. -/
def width (s : Slot) : Text → Fill (Slot × Text)
  | '*' :: r => do
    let n ← nextCount 63
    return ({ s with width := n.natAbs, left := s.left || n < 0 }, r)
  | t =>
    let (n, r) := count t
    if n < Nat.pow 2 63 then return ({ s with width := n }, r) else throw .widthTooBig

/-- The precision of a slot; a negative one counts as zero. -/
def precision (s : Slot) : Text → Fill (Slot × Text)
  | '.' :: '*' :: r => do return ({ s with precision := some (← nextCount 31).toNat }, r)
  | '.' :: t =>
    let (n, r) := count t
    if n < Nat.pow 2 31 then return ({ s with precision := some n }, r) else throw .precisionTooBig
  | t => return (s, t)

def dropSize : Text → Text
  | [] => []
  | c :: r => if c = 'h' ∨ c = 'l' ∨ c = 'L' then r else c :: r

/-- A key up to the parenthesis that closes it, with `depth` parentheses open inside it, and the text
after that. -/
def keyFrom? : (depth : Nat) → Text → Option (Text × Text)
  | _, [] => none
  | depth, c :: r =>
    if c = ')' then
      match depth with
      | 0 => some ([], r)
      | d + 1 => (keyFrom? d r).map fun (key, rest) => (c :: key, rest)
    else (keyFrom? (if c = '(' then depth + 1 else depth) r).map fun (key, rest) => (c :: key, rest)

/-- Read the key of a slot, if it has one: its value becomes the only argument left. -/
def key (args : Args) : Text → Fill Text
  | '(' :: r =>
    match args with
    | .single (.obj fields) =>
      match keyFrom? 0 r with
      | none => throw .incompleteKey
      | some (name, rest) =>
        match Fields.get? fields name with
        | none => throw (.missingKey name)
        | some v => do
          set [v]
          return rest
    | .single (.arr _) => if (keyFrom? 0 r).isSome then throw .mismatch else throw .incompleteKey
    | _ => throw .mismatch
  | t => return t

/-- Fill the slot whose percent sign was just read, in a template of `size` characters, and give the text
after it too. -/
def fillSlot (size : Nat) (args : Args) (t : Text) : Fill (Text × Text) := do
  let (layout, t) := flags {} (← key args t)
  let (layout, t) ← width layout t
  let (layout, t) ← precision layout t
  match dropSize t with
  | [] => throw .incomplete
  | letter :: rest => return (← layout.fill letter (size - rest.length - 1) (← nextArg), rest)

/-- Fill the slots of a text in a template of `size` characters. -/
def fillFrom (size : Nat) (args : Args) : (fuel : Nat) → Text → Fill Text
  | _, [] => do
    if args.allNeeded && !(← get).isEmpty then throw .mismatch
    return []
  | 0, _ => throw .incomplete
  | n + 1, '%' :: '%' :: r => return '%' :: (← fillFrom size args n r)
  | n + 1, '%' :: r => do
    let (w, rest) ← fillSlot size args r
    return w ++ (← fillFrom size args n rest)
  | n + 1, c :: r => return c :: (← fillFrom size args n r)

/-- Fill a template. Without arguments it is taken as it is. -/
def fill (template : Text) (args : Args) : Except TemplateError Text :=
  if args.isEmpty then .ok template
  else (fillFrom template.length args template.length template).run' args.queue

end DocMark.Template
