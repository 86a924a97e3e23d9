import DocMark.Text.Basic

/-!
Patterns: recognisers of a stretch of text at a given position.

A pattern looks at the text from one position on and either fails or gives its *hit* there: how many
characters it takes, and the texts it captured. A pattern has at most one hit at a position. A hit
may be empty, also at the end of the text.
-/

namespace DocMark

/-- What a pattern takes at one position. -/
structure Hit where
  /-- The number of characters taken. -/
  size : Nat
  /-- The captured texts, in the order of their groups. -/
  groups : List Text := []
deriving DecidableEq, Repr

/-- A recogniser of the head of a text. -/
abbrev Pattern := Text → Option Hit

/-- Where a pattern was found, with the text taken and the texts captured there. -/
structure Match where
  start : Nat
  stop : Nat
  text : Text
  groups : List Text
deriving DecidableEq, Repr

namespace Pattern

def empty : Pattern := fun _ => some ⟨0, []⟩

def one (p : Char → Bool) : Pattern
  | c :: _ => if p c then some ⟨1, []⟩ else none
  | [] => none

/-- The longest run of the class, which may be empty. -/
def many (p : Char → Bool) : Pattern := fun s => some ⟨(s.takeWhile p).length, []⟩

/-- The longest run of the class, if there is one. -/
def run (p : Char → Bool) : Pattern := fun s =>
  match s.takeWhile p with
  | [] => none
  | w => some ⟨w.length, []⟩

def andThen (p q : Pattern) : Pattern := fun s =>
  match p s with
  | some h => (q (s.drop h.size)).map fun k => ⟨h.size + k.size, h.groups ++ k.groups⟩
  | none => none

/-- The pattern, with all it takes as a group of its own before its other groups. -/
def captured (p : Pattern) : Pattern := fun s =>
  (p s).map fun h => ⟨h.size, s.take h.size :: h.groups⟩

/-- The first hit at or after position `at_`, in the text `s` that starts at `at_`. -/
def findFrom (p : Pattern) (at_ : Nat) (s : Text) : Option Match :=
  match p s with
  | some h => some ⟨at_, at_ + h.size, s.take h.size, h.groups⟩
  | none =>
    match s with
    | [] => none
    | _ :: r => findFrom p (at_ + 1) r

/-- The first match in `s` whose start is not before `pos`. A negative position means the start of
the text, and one past the end means its end. -/
def find (p : Pattern) (s : Text) (pos : Int) : Option Match :=
  let k := min pos.toNat s.length
  findFrom p k (s.drop k)

end Pattern

end DocMark
