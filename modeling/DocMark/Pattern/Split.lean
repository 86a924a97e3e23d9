import DocMark.Pattern.Basic

/-!
Splitting a text at its separators.

Separators are what a search finds in the text, from left to right. A separator may be empty, and it splits
too, but not twice at one position: behind an empty separator the search has to go further. What the
separators captured stands between the pieces.
-/

namespace DocMark

/-- A search for separators in the text `s`. -/
structure Separators (s : Text) where
  /-- The first separator at or after a position. A search that has to go `further` leaves out an empty
  separator at the position itself. -/
  next? : (pos : Nat) → (further : Bool) → Option Match
  /-- Separators lie in the text, and not before the position. -/
  inside : ∀ {pos further m}, next? pos further = some m →
    pos ≤ m.start ∧ m.start ≤ m.stop ∧ m.stop ≤ s.length
  /-- A search that has to go further gets further. -/
  advances : ∀ {pos m}, next? pos true = some m → pos < m.stop

namespace Separators

variable {s : Text}

/-- The pieces of the text from `pos` on, after at most `n` splits, with the captures between them. -/
def splitFrom (sep : Separators s) : (n : Nat) → (pos : Nat) → (further : Bool) → List Text
  | 0, pos, _ => [s.drop pos]
  | n + 1, pos, further =>
    match sep.next? pos further with
    | none => [s.drop pos]
    | some m => s.extract pos m.start :: m.groups ++ sep.splitFrom n m.stop (m.start == m.stop)

/-- The most separators that a text can have: at each position an empty one, and one that starts there and
takes characters; at the end only the empty one. -/
def bound (_ : Separators s) : Nat := 2 * s.length + 1

/-- Split a text at its separators, at most `budget` times; no budget means no limit. -/
def split (sep : Separators s) (budget : Option Nat) : List Text :=
  sep.splitFrom (budget.getD sep.bound) 0 false

end Separators

namespace Pattern

/-- A match begins at or after the position that the search starts from. -/
theorem findFrom_bounds {p : Pattern} {k : Nat} {s : Text} {m : Match} (h : findFrom p k s = some m) :
    k ≤ m.start ∧ m.start ≤ m.stop := by
  induction s generalizing k with
  | nil =>
    rw [findFrom] at h
    split at h
    · obtain rfl := Option.some.inj h
      exact ⟨Nat.le_refl k, Nat.le_add_right k _⟩
    · cases h
  | cons c r ih =>
    rw [findFrom] at h
    split at h
    · obtain rfl := Option.some.inj h
      exact ⟨Nat.le_refl k, Nat.le_add_right k _⟩
    · exact ⟨Nat.le_of_succ_le (ih h).1, (ih h).2⟩

/-- Where a pattern has no empty hit, what it finds ends further on. -/
theorem lt_stop_of_findFrom {p : Pattern} {k : Nat} {s : Text} {m : Match} (h : findFrom p k s = some m)
    (hne : ∀ hit, p s = some hit → hit.size ≠ 0) : k < m.stop := by
  rw [findFrom.eq_def] at h
  split at h
  · rename_i hit hhit
    obtain rfl := Option.some.inj h
    exact Nat.lt_add_of_pos_right (Nat.pos_of_ne_zero (hne hit hhit))
  · split at h
    · cases h
    · have hbounds := findFrom_bounds h
      exact Nat.lt_of_lt_of_le hbounds.1 hbounds.2

/-- Where a search for separators starts: at the position, or behind it if the pattern takes nothing there
and the search has to go further. -/
def searchStart (p : Pattern) (s : Text) (pos : Nat) (further : Bool) : Nat :=
  match p (s.drop pos) with
  | some h => if further && h.size == 0 then pos + 1 else pos
  | none => pos

/-- The first hit of a pattern as a separator. A hit that takes more than there is does not count. -/
def separator? (p : Pattern) (s : Text) (pos : Nat) (further : Bool) : Option Match :=
  if p.searchStart s pos further ≤ s.length then
    (p.find s (p.searchStart s pos further)).filter (·.stop ≤ s.length)
  else none

/-- A separator is what the search finds, and it ends in the text. -/
theorem separator?_eq_some {p : Pattern} {s : Text} {pos : Nat} {further : Bool} {m : Match}
    (h : p.separator? s pos further = some m) :
    findFrom p (p.searchStart s pos further) (s.drop (p.searchStart s pos further)) = some m ∧
      m.stop ≤ s.length := by
  unfold separator? at h
  split at h
  · rename_i hstart
    obtain ⟨hfind, hstop⟩ := Option.filter_eq_some_iff.mp h
    simp only [find, Int.toNat_natCast, Nat.min_eq_left hstart] at hfind
    exact ⟨hfind, of_decide_eq_true hstop⟩
  · cases h

theorem le_searchStart (p : Pattern) (s : Text) (pos : Nat) (further : Bool) :
    pos ≤ p.searchStart s pos further := by
  unfold searchStart
  split
  · split
    · exact Nat.le_succ pos
    · exact Nat.le_refl pos
  · exact Nat.le_refl pos

/-- Either the search starts behind the position, or no hit there is empty. -/
theorem searchStart_cases (p : Pattern) (s : Text) (pos : Nat) :
    p.searchStart s pos true = pos + 1 ∨
      p.searchStart s pos true = pos ∧ ∀ hit, p (s.drop pos) = some hit → hit.size ≠ 0 := by
  unfold searchStart
  cases p (s.drop pos) with
  | none => exact Or.inr ⟨rfl, by simp⟩
  | some hit =>
    by_cases hzero : hit.size = 0
    · exact Or.inl (by simp [hzero])
    · exact Or.inr ⟨by simp [hzero], fun _ h => Option.some.inj h ▸ hzero⟩

def separators (p : Pattern) (s : Text) : Separators s where
  next? := p.separator? s
  inside := by
    intro pos further m h
    obtain ⟨hfind, hstop⟩ := separator?_eq_some h
    obtain ⟨hstart, hle⟩ := findFrom_bounds hfind
    exact ⟨Nat.le_trans (le_searchStart p s pos further) hstart, hle, hstop⟩
  advances := by
    intro pos m h
    obtain ⟨hfind, -⟩ := separator?_eq_some h
    rcases searchStart_cases p s pos with hstart | ⟨hstart, hne⟩
    · rw [hstart] at hfind
      exact Nat.lt_of_lt_of_le (findFrom_bounds hfind).1 (findFrom_bounds hfind).2
    · rw [hstart] at hfind
      exact lt_stop_of_findFrom hfind hne

inductive TokenError where
  /-- Fewer than one token is asked for. -/
  | limitTooSmall
deriving DecidableEq, Repr

def TokenError.message : TokenError → String
  | .limitTooSmall => "limit must be at least 1"

end Pattern

/-- Cut a text into tokens at its separators. The first `limit - 1` separators split and the remainder
stays in the last token; missing tokens are empty. A limit of one sets no bound on the splits. -/
def Separators.tokenize {s : Text} (sep : Separators s) (limit : Int) :
    Except Pattern.TokenError (List Text) :=
  if limit < 1 then .error .limitTooSmall
  else
    let tokens := sep.split (if limit = 1 then none else some (limit - 1).toNat)
    .ok (tokens ++ List.replicate (limit.toNat - tokens.length) [])

def Pattern.tokenize (p : Pattern) (limit : Int) (s : Text) : Except TokenError (List Text) :=
  (p.separators s).tokenize limit

end DocMark
