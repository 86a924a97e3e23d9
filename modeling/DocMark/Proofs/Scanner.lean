import DocMark.Scanner
import Mathlib.Data.List.Basic

/-!
What a search finds, and what a scanner yields.

* `Pattern.find_eq_some_iff`, `Pattern.find_eq_none_iff`: a search from a position gives the hit at
  the least position at or after it, and nothing exactly when there is no hit from there on.
* `Scanner.steps_of_find_eq_some`, `Scanner.steps_of_find_eq_none`: what a scanner of a pattern does
  next is decided by that search alone. After a hit that takes characters the cursor stands at its end.
-/

namespace DocMark

namespace Pattern

variable {p : Pattern}

/-- What is found at position `i` of the text `t` when the pattern hits there. -/
def foundAt (t : Text) (i : Nat) (h : Hit) : Match :=
  ⟨i, i + h.size, (t.drop i).take h.size, h.groups⟩

/-- Nothing is found exactly if the pattern hits nowhere. -/
theorem findFrom_eq_none_iff {k : Nat} {s : Text} :
    findFrom p k s = none ↔ ∀ i, p (s.drop i) = none := by
  induction s generalizing k with
  | nil =>
    rw [findFrom]
    cases hp : p [] with
    | none => simp [hp]
    | some h =>
      simp only [reduceCtorEq, false_iff, not_forall]
      exact ⟨0, by simp [hp]⟩
  | cons c r ih =>
    rw [findFrom]
    cases hp : p (c :: r) with
    | some h =>
      simp only [reduceCtorEq, false_iff, not_forall]
      exact ⟨0, by simp [hp]⟩
    | none =>
      simp only [ih]
      constructor
      · intro h i
        cases i with
        | zero => exact hp
        | succ i => exact h i
      · intro h i
        exact h (i + 1)

/-- What is found is the first hit, with its place in the text. -/
theorem findFrom_eq_some_iff {k : Nat} {s : Text} {m : Match} :
    findFrom p k s = some m ↔
      ∃ i h, i ≤ s.length ∧ p (s.drop i) = some h ∧ (∀ i' < i, p (s.drop i') = none) ∧
        m = ⟨k + i, k + i + h.size, (s.drop i).take h.size, h.groups⟩ := by
  induction s generalizing k with
  | nil =>
    rw [findFrom]
    cases hp : p [] with
    | none => simp [hp]
    | some h =>
      constructor
      · intro hm
        cases hm
        exact ⟨0, h, Nat.le_refl 0, hp, by simp, rfl⟩
      · rintro ⟨i, h', hi, hh, -, rfl⟩
        have hi0 : i = 0 := Nat.le_zero.mp hi
        subst hi0
        rw [List.drop_nil, hp] at hh
        cases hh
        simp
  | cons c r ih =>
    rw [findFrom]
    cases hp : p (c :: r) with
    | some h =>
      constructor
      · intro hm
        cases hm
        exact ⟨0, h, Nat.zero_le _, hp, by simp, rfl⟩
      · rintro ⟨i, h', -, hh, hleast, rfl⟩
        cases i with
        | zero =>
          rw [List.drop_zero, hp] at hh
          cases hh
          rfl
        | succ i =>
          have h0 := hleast 0 (Nat.succ_pos i)
          rw [List.drop_zero, hp] at h0
          exact absurd h0 (by simp)
    | none =>
      simp only [ih]
      constructor
      · rintro ⟨i, h, hi, hh, hleast, rfl⟩
        refine ⟨i + 1, h, Nat.succ_le_succ hi, hh, ?_, ?_⟩
        · intro i' hi'
          cases i' with
          | zero => exact hp
          | succ i' => exact hleast i' (Nat.lt_of_succ_lt_succ hi')
        · simp only [List.drop_succ_cons, Match.mk.injEq, and_true]
          omega
      · rintro ⟨i, h, hi, hh, hleast, rfl⟩
        cases i with
        | zero =>
          rw [List.drop_zero, hp] at hh
          exact absurd hh (by simp)
        | succ i =>
          refine ⟨i, h, Nat.le_of_succ_le_succ hi, hh, ?_, ?_⟩
          · intro i' hi'
            exact hleast (i' + 1) (Nat.succ_lt_succ hi')
          · simp only [List.drop_succ_cons, Match.mk.injEq, and_true]
            omega

/-- **A search finds the first hit.** From a position inside the text it gives the hit at the least
position at or after it. -/
theorem find_eq_some_iff {t : Text} {pos : Nat} (hpos : pos ≤ t.length) {m : Match} :
    p.find t pos = some m ↔
      ∃ i h, pos ≤ i ∧ p (t.drop i) = some h ∧ (∀ i', pos ≤ i' → i' < i → p (t.drop i') = none) ∧
        i ≤ t.length ∧ m = foundAt t i h := by
  simp only [find, Int.toNat_natCast, Nat.min_eq_left hpos, findFrom_eq_some_iff, List.drop_drop,
    List.length_drop]
  constructor
  · rintro ⟨i, h, hi, hh, hleast, rfl⟩
    refine ⟨pos + i, h, Nat.le_add_right pos i, hh, ?_, by omega, rfl⟩
    intro i' hle hlt
    have hi' := hleast (i' - pos) (by omega)
    rwa [Nat.add_sub_cancel' hle] at hi'
  · rintro ⟨i, h, hle, hh, hleast, hi, rfl⟩
    have hadd : pos + (i - pos) = i := Nat.add_sub_cancel' hle
    refine ⟨i - pos, h, by omega, by rwa [hadd], ?_, by rw [hadd]; rfl⟩
    intro i' hi'
    exact hleast (pos + i') (Nat.le_add_right pos i') (by omega)

/-- A search finds nothing exactly when the pattern hits nowhere at or after the position. -/
theorem find_eq_none_iff {t : Text} {pos : Nat} (hpos : pos ≤ t.length) :
    p.find t pos = none ↔ ∀ i, pos ≤ i → p (t.drop i) = none := by
  simp only [find, Int.toNat_natCast, Nat.min_eq_left hpos, findFrom_eq_none_iff, List.drop_drop]
  constructor
  · intro h i hle
    have hi := h (i - pos)
    rwa [Nat.add_sub_cancel' hle] at hi
  · intro h i
    exact h (pos + i) (Nat.le_add_right pos i)

end Pattern

namespace Scanner

variable {p : Pattern} {t : Text} {pos : Nat}

/-- A scanner whose search finds nothing yields nothing. -/
theorem steps_of_find_eq_none (n : Nat) (h : p.find t pos = none) :
    (ofPattern p t pos).steps n = [] := by
  cases n with
  | zero => rfl
  | succ n =>
    rw [steps, next]
    by_cases hex : (ofPattern p t pos).exhausted = true
    · rw [if_pos hex]
    · rw [if_neg hex, show (ofPattern p t pos).search (ofPattern p t pos).pos = none from h]

/-- A scanner whose search finds a match that is not empty yields it, and stands at its end. -/
theorem steps_of_find_eq_some (n : Nat) {m : Match} (hpos : pos ≤ t.length)
    (h : p.find t pos = some m) (hm : m.start < m.stop) :
    (ofPattern p t pos).steps (n + 1) =
      (m, ofPattern p t m.stop) :: (ofPattern p t m.stop).steps n := by
  have hex : (ofPattern p t pos).exhausted = false := by
    apply decide_eq_false
    change ¬ (pos : Int) > (t.length : Int)
    omega
  rw [steps, next, hex, show (ofPattern p t pos).search (ofPattern p t pos).pos = some m from h]
  simp only [Bool.false_eq_true, ite_false, gt_iff_lt, hm, ite_true]
  rfl

end Scanner

end DocMark
