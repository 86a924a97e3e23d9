import DocMark.Pattern.Split
import DocMark.Text.Markup

/-!
How doc comments of dynamically typed languages write types.

In the *dollar* style a type stands as it is and a parameter's name begins with a dollar sign. In the
*braced* style a type is wrapped in braces and any name may follow it. The *unspecified* style says
nothing, so nothing typed can be formatted in it.
-/

namespace DocMark

/-- What stands between the pieces of an entry. -/
def entrySeparator : Text := " — ".toList

def joinEntry (pieces : List Text) : Text := Text.joinWith entrySeparator (pieces.filter (· ≠ []))

def spanUnlessEmpty (s : Text) : Text := if s.isEmpty then [] else Text.codeSpan s

/-- The tokens of the first line of a value, and the remainder with its leading line feed. -/
def tokenizeHead (limit : Int) (value : Text) : Except Pattern.TokenError (List Text × Text) :=
  let (head, tail) := Text.splitFirstLine value
  (Pattern.tokenize (Pattern.run Text.isSpace) limit head).map fun tokens => (tokens, tail)

inductive TypeStyle where
  | dollar
  | braced
  | unspecified
deriving DecidableEq, Repr

inductive FlavorError where
  /-- The tag holds a type, and the flavor does not say how types are written. -/
  | styleUnspecified
  /-- There is no flavor of that name. -/
  | unknown (name : Text)
deriving DecidableEq, Repr

namespace TypeStyle

def dropFinalNewline (s : Text) : Text :=
  match s.reverse with
  | '\n' :: r => r.reverse
  | _ => s

def isNameChar (c : Char) : Bool :=
  Text.isLetter c || ('0' ≤ c && c ≤ '9') || c == '_' || c == '$'

/-- A name in the dollar style: a dollar sign and at least one name character. One line feed may
follow. -/
def isDollarName (token : Text) : Bool :=
  match dropFinalNewline token with
  | '$' :: c :: r => (c :: r).all isNameChar
  | _ => false

def isInner (c : Char) : Bool := c != '\x7b' && c != '\x7d'

/-- The type inside one pair of braces. One line feed may follow. -/
def unwrap? (token : Text) : Option Text :=
  match dropFinalNewline token with
  | '\x7b' :: r =>
    match r.takeWhile isInner, r.dropWhile isInner with
    | c :: inner, ['\x7d'] => some (c :: inner)
    | _, _ => none
  | _ => none

def formatType : TypeStyle → (type : Text) → Except FlavorError Text
  | .dollar, type => .ok (spanUnlessEmpty type)
  | .braced, type => .ok (spanUnlessEmpty ((unwrap? type).getD type))
  | .unspecified, _ => .error .styleUnspecified

def acceptsName : TypeStyle → (type name : Text) → Except FlavorError Bool
  | .dollar, _, name => .ok (isDollarName name)
  | .braced, type, _ => .ok (unwrap? type).isSome
  | .unspecified, _, _ => .error .styleUnspecified

/-- The Markdown of a name and its type; a name that is not accepted is left out. -/
def formatTypeAndName : TypeStyle → (type name : Text) → Except FlavorError Text
  | .dollar, type, name =>
    .ok (if isDollarName name then joinEntry [spanUnlessEmpty name, spanUnlessEmpty type]
      else spanUnlessEmpty type)
  | .braced, type, name =>
    .ok (match unwrap? type with
      | some inner => joinEntry [spanUnlessEmpty name, spanUnlessEmpty inner]
      | none => spanUnlessEmpty type)
  | .unspecified, _, _ => .error .styleUnspecified

end TypeStyle

end DocMark
