import DocMark.Text.Basic

/-!
Replacing and cutting out the stretches of a text that a recogniser accepts.

A recogniser looks at the text from one position on and says how many characters it takes there.
Stretches are found from left to right, each starting after the end of the one before, so they never
overlap. Recognisers take at least one character.
-/

namespace DocMark.Text

/-- Write `w` for every stretch of `n` characters for which the recogniser gives `(n, w)`, after
skipping `skip` characters. -/
def replaceFrom (m : Text → Option (Nat × Text)) : (skip : Nat) → Text → Text
  | _, [] => []
  | k + 1, _ :: r => replaceFrom m k r
  | 0, c :: r =>
    match m (c :: r) with
    | some (n, w) => w ++ replaceFrom m (n - 1) r
    | none => c :: replaceFrom m 0 r

/-- Write the recogniser's replacement for every stretch it takes. -/
def replaceAll (m : Text → Option (Nat × Text)) (s : Text) : Text := replaceFrom m 0 s

/-- The pieces between the stretches the recogniser takes, after skipping `skip` characters. -/
def cutFrom (m : Text → Option Nat) : (skip : Nat) → Text → List Text
  | _, [] => [[]]
  | k + 1, _ :: r => cutFrom m k r
  | 0, c :: r =>
    match m (c :: r) with
    | some n => [] :: cutFrom m (n - 1) r
    | none => consHead c (cutFrom m 0 r)

def cut (m : Text → Option Nat) (s : Text) : List Text := cutFrom m 0 s

theorem replaceFrom_eq_drop (m : Text → Option (Nat × Text)) (k : Nat) (s : Text) :
    replaceFrom m k s = replaceFrom m 0 (s.drop k) := by
  induction s generalizing k with
  | nil => simp [replaceFrom]
  | cons c r ih =>
    cases k with
    | zero => rfl
    | succ k => rw [replaceFrom, ih, List.drop_succ_cons]

end DocMark.Text
