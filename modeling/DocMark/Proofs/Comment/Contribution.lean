import DocMark.Comment.Line
import DocMark.Proofs.Text.Ink

/-!
What the lines of a comment contribute to its Markdown.

A fence, a list item and a line of code contribute themselves, a blank marker among code contributes
nothing, and prose what `prose` makes of it. Whether a line is code is decided by the fences before it
alone. `WritesLines` says of one step of a line machine that it writes the contribution of its line and
nothing else; `WritesLines.held_foldl` is what follows for a whole run.
-/

namespace DocMark.Comment

open Text

/-! ### Fences seen before a line -/

/-- Whether the line after these is inside a fenced block: an odd number of them are fences. -/
def insideFence (before : List Text) : Bool := before.countP isFence % 2 == 1

/-- A fence turns inside into outside. -/
theorem insideFence_concat (before : List Text) (line : Text) :
    insideFence (before ++ [line]) = (insideFence before ^^ isFence line) := by
  rw [insideFence, insideFence, List.countP_append, List.countP_singleton]
  rcases Nat.mod_two_eq_zero_or_one (before.countP isFence) with heven | hodd
  · cases isFence line with
    | false => simp [heven]
    | true => simp [Nat.add_mod, heven]
  · cases isFence line with
    | false => simp [hodd]
    | true => simp [Nat.add_mod, hodd]

/-! ### Contributions -/

/-- What a line contributes, inside or outside a fenced block. -/
def contribution (prose : Text → Text) (inside : Bool) (line : Text) : Text :=
  if isFence line then line
  else if inside then
    if isBlankMarker line then [] else line
  else if isListItem line then line
  else prose line

/-- The ink of what the lines contribute, line by line. -/
def contributedInk (prose : Text → Text) (ls : List Text) : Text :=
  (ls.mapIdx fun i line => ink (contribution prose (insideFence (ls.take i)) line)).flatten

/-- The last line contributes by the fences before it. -/
theorem contributedInk_concat (prose : Text → Text) (ls : List Text) (line : Text) :
    contributedInk prose (ls ++ [line]) =
      contributedInk prose ls ++ ink (contribution prose (insideFence ls) line) := by
  have hbefore : (ls.mapIdx fun i l =>
        ink (contribution prose (insideFence ((ls ++ [line]).take i)) l)) =
      ls.mapIdx fun i l => ink (contribution prose (insideFence (ls.take i)) l) := by
    rw [List.mapIdx_eq_mapIdx_iff]
    intro i hi
    rw [List.take_append_of_le_length (Nat.le_of_lt hi)]
  rw [contributedInk, contributedInk, List.mapIdx_concat, List.flatten_concat, hbefore,
    List.take_left]

/-! ### Machines that read lines -/

/-- One step of a machine follows the fences and writes what its line contributes. `held` is the ink
that a state holds, and `inv` what the machine keeps true. -/
structure WritesLines {σ : Type} (step : σ → Text → σ) (inside : σ → Bool) (held : σ → Text)
    (inv : σ → Prop) (prose : Text → Text) : Prop where
  toggles : ∀ s line, inside (step s line) = (inside s ^^ isFence line)
  keeps : ∀ s line, inv s → inv (step s line)
  adds : ∀ s line, inv s → held (step s line) = held s ++ ink (contribution prose (inside s) line)

namespace WritesLines

variable {σ : Type} {step : σ → Text → σ} {inside : σ → Bool} {held : σ → Text} {inv : σ → Prop}
  {prose : Text → Text} {s : σ}

/-- From outside of a block a machine is inside exactly behind an odd number of fences. -/
theorem inside_foldl (m : WritesLines step inside held inv prose) (hs : inside s = false)
    (ls : List Text) : inside (ls.foldl step s) = insideFence ls := by
  induction ls using List.reverseRecOn with
  | nil => exact hs
  | append_singleton ls line ih =>
    rw [List.foldl_concat, m.toggles, ih, insideFence_concat]

/-- The invariant holds behind any lines. -/
theorem inv_foldl (m : WritesLines step inside held inv prose) (hs : inv s) (ls : List Text) :
    inv (ls.foldl step s) := by
  induction ls using List.reverseRecOn with
  | nil => exact hs
  | append_singleton ls line ih =>
    rw [List.foldl_concat]
    exact m.keeps _ line ih

/-- **A run writes the contributions of its lines**, in order. -/
theorem held_foldl (m : WritesLines step inside held inv prose) (hinside : inside s = false)
    (hinv : inv s) (hheld : held s = []) (ls : List Text) :
    held (ls.foldl step s) = contributedInk prose ls := by
  induction ls using List.reverseRecOn with
  | nil => exact hheld
  | append_singleton ls line ih =>
    rw [List.foldl_concat, m.adds _ line (m.inv_foldl hinv ls), ih, m.inside_foldl hinside,
      contributedInk_concat]

end WritesLines

end DocMark.Comment
