import DocMark.Proofs.Text.Lines
import DocMark.Proofs.Text.Trim

/-!
The lines of a text below its first one.

A text that continues a line is judged by its lower lines: the first one is completed by what stands
before the text. `lowerLines_append_newline` takes a text apart at a line feed, and trimming the end keeps
what holds of the lower lines if it is kept in each of them (`LowerLines.trimEnd`).
-/

namespace DocMark.Text

variable {P : Text → Prop}

/-- All lines of a text but the first have the property. -/
def LowerLines (P : Text → Prop) (s : Text) : Prop := ∀ l ∈ (lines s).tail, P l

theorem lowerLines_of_notMem {s : Text} (h : '\n' ∉ s) : LowerLines P s := by
  intro l hl
  rw [lines_eq_singleton h] at hl
  exact absurd hl List.not_mem_nil

/-- **Lower lines split at a line feed**: all lines behind it are lower ones. -/
theorem lowerLines_append_newline {a b : Text} :
    LowerLines P (a ++ '\n' :: b) ↔ LowerLines P a ∧ ∀ l ∈ lines b, P l := by
  rw [LowerLines, LowerLines, lines_append_newline, List.tail_append_of_ne_nil (lines_ne_nil a)]
  exact List.forall_mem_append

/-- A text before the last line feed and one line behind it. -/
theorem lowerLines_append_line {a l : Text} (hl : '\n' ∉ l) :
    LowerLines P (a ++ '\n' :: l) ↔ LowerLines P a ∧ P l := by
  rw [lowerLines_append_newline, lines_eq_singleton hl, List.forall_mem_singleton]

theorem lines_append_of_notMem {x : Text} (hx : '\n' ∉ x) (s : Text) :
    lines (x ++ s) = (lines s).modifyHead (x ++ ·) := by
  induction x with
  | nil => exact (congrFun List.modifyHead_id (lines s)).symm
  | cons c x ih =>
    have hc : c ≠ '\n' := fun heq => hx (heq ▸ List.mem_cons_self)
    rw [List.cons_append, lines_cons hc, ih fun hmem => hx (List.mem_cons_of_mem c hmem),
      List.modifyHead_modifyHead]
    rfl

/-- What is put before the first line does not matter. -/
theorem lowerLines_append_of_notMem {x : Text} (hx : '\n' ∉ x) {s : Text} :
    LowerLines P (x ++ s) ↔ LowerLines P s := by
  rw [LowerLines, LowerLines, lines_append_of_notMem hx, List.tail_modifyHead]

/-- A text is one line, or a text, a line feed and its last line. -/
theorem lastLine_cases (s : Text) : '\n' ∉ s ∨ ∃ r l, '\n' ∉ l ∧ s = r ++ '\n' :: l := by
  by_cases h : '\n' ∈ s
  · obtain ⟨l, r, hs, hl⟩ := List.eq_append_cons_of_mem (List.mem_reverse.mpr h)
    refine Or.inr ⟨r.reverse, l.reverse, by simpa using hl, ?_⟩
    rw [← List.reverse_reverse s, hs]
    simp
  · exact Or.inl h

/-- Texts by their last line: what holds of a first line, and of a text with one more line if it holds
of the text, holds of every text. -/
theorem lastLine_induction {Q : Text → Prop} (first : ∀ l, '\n' ∉ l → Q l)
    (line : ∀ r l, '\n' ∉ l → Q r → Q (r ++ '\n' :: l)) (s : Text) : Q s := by
  induction hn : s.length using Nat.strongRecOn generalizing s with
  | _ n ih =>
    rcases lastLine_cases s with hs | ⟨r, l, hl, rfl⟩
    · exact first s hs
    · refine line r l hl (ih r.length ?_ r rfl)
      simp only [List.length_append, List.length_cons] at hn
      omega

/-- Trimming the end keeps what holds of the lower lines, if it is kept in a line of which something
remains. -/
theorem LowerLines.trimEnd {p : Char → Bool} (hnil : P [])
    (hline : ∀ l, P l → (∃ c ∈ l, p c = false) → P (trimEnd p l)) {s : Text}
    (h : LowerLines P s) : LowerLines P (trimEnd p s) := by
  induction s using lastLine_induction with
  | first l hl => exact lowerLines_of_notMem fun hmem => hl ((trimEnd_sublist p l).subset hmem)
  | line r l hl ih =>
    obtain ⟨hr, hlast⟩ := (lowerLines_append_line hl).mp h
    rw [← List.singleton_append, ← List.append_assoc]
    by_cases hkept : ∃ c ∈ l, p c = false
    · -- Something remains of the last line.
      have htrim : '\n' ∉ Text.trimEnd p l := fun hmem => hl ((trimEnd_sublist p l).subset hmem)
      rw [trimEnd_append_of_exists _ hkept, List.append_assoc, List.singleton_append]
      exact (lowerLines_append_line htrim).mpr ⟨hr, hline l hlast hkept⟩
    · have hall : ∀ c ∈ l, p c = true := by
        intro c hc
        by_contra hpc
        exact hkept ⟨c, hc, by simpa using hpc⟩
      rw [trimEnd_append_of_all _ hall]
      cases hp : p '\n' with
      | true =>
        rw [trimEnd_append_of_all r (by simpa using hp)]
        exact ih hr
      | false =>
        rw [trimEnd_append_singleton r hp]
        exact (lowerLines_append_line (l := []) (by simp)).mpr ⟨hr, hnil⟩

/-- Texts that each begin a new line, one after another. -/
theorem LowerLines.append_flatMap {α : Type} {f : α → Text} {vs : List α} {a : Text}
    (ha : LowerLines P a) (hf : ∀ v ∈ vs, ∃ b, f v = '\n' :: b ∧ ∀ l ∈ lines b, P l) :
    LowerLines P (a ++ vs.flatMap f) := by
  induction vs generalizing a with
  | nil => simpa using ha
  | cons v vs ih =>
    obtain ⟨b, hb, hlines⟩ := hf v List.mem_cons_self
    rw [List.flatMap_cons, ← List.append_assoc, hb]
    apply ih
    · exact lowerLines_append_newline.mpr ⟨ha, hlines⟩
    · intro u hu
      exact hf u (List.mem_cons_of_mem v hu)

/-! ### The end of a text -/

theorem endsWith_newline_iff {s : Text} : endsWith ['\n'] s = true ↔ ∃ r, s = r ++ ['\n'] := by
  rw [endsWith, List.isSuffixOf_iff_suffix]
  constructor
  · rintro ⟨r, rfl⟩
    exact ⟨r, rfl⟩
  · rintro ⟨r, rfl⟩
    exact ⟨r, rfl⟩

end DocMark.Text
