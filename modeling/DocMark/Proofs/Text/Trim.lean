import DocMark.Text.Basic
import Mathlib.Data.List.DropRight
import Mathlib.Data.List.TakeWhile

/-!
Trimming the end and both ends of a text.

`trimEnd` is the library's `List.rdropWhile`. What is added here is how trimming meets concatenation: a
tail of the trimmed class goes, and a tail that keeps something keeps all before it.
-/

namespace DocMark.Text

variable {p : Char → Bool}

theorem trimEnd_eq_rdropWhile (p : Char → Bool) (s : Text) : trimEnd p s = s.rdropWhile p := rfl

theorem trimEnd_eq_nil_iff {s : Text} : trimEnd p s = [] ↔ ∀ c ∈ s, p c = true :=
  List.rdropWhile_eq_nil_iff

/-- A tail of the class goes. -/
theorem trimEnd_append_of_all (a : Text) {b : Text} (h : ∀ c ∈ b, p c = true) :
    trimEnd p (a ++ b) = trimEnd p a := by
  rw [trimEnd, List.reverse_append, List.dropWhile_append_of_pos]
  · rfl
  · intro c hc
    exact h c (List.mem_reverse.mp hc)

/-- A tail that keeps something keeps all before it. -/
theorem trimEnd_append_of_exists (a : Text) {b : Text} (h : ∃ c ∈ b, p c = false) :
    trimEnd p (a ++ b) = a ++ trimEnd p b := by
  have hne : b.reverse.dropWhile p ≠ [] := by
    intro hnil
    obtain ⟨c, hc, hpc⟩ := h
    have hall := List.dropWhile_eq_nil_iff.mp hnil c (List.mem_reverse.mpr hc)
    exact absurd hpc (by simp [hall])
  rw [trimEnd, List.reverse_append, List.dropWhile_append, if_neg (by simpa using hne)]
  simp [trimEnd]

/-- A text whose last character is not of the class stays. -/
theorem trimEnd_append_singleton (a : Text) {c : Char} (h : p c = false) :
    trimEnd p (a ++ [c]) = a ++ [c] :=
  List.rdropWhile_concat_neg p a c (by simp [h])

/-- Trimming does not reach past a character that is not of the class. -/
theorem trimEnd_append_cons (a b : Text) {c : Char} (h : p c = false) :
    trimEnd p (a ++ c :: b) = a ++ c :: trimEnd p b := by
  rw [List.append_cons]
  by_cases hb : ∃ d ∈ b, p d = false
  · rw [trimEnd_append_of_exists _ hb, ← List.append_cons]
  · have hall : ∀ d ∈ b, p d = true := fun d hd => by simpa using fun hfalse => hb ⟨d, hd, hfalse⟩
    rw [trimEnd_append_of_all _ hall, trimEnd_append_singleton a h, trimEnd_eq_nil_iff.mpr hall]

theorem trimEnd_eq_self {s : Text} (h : ∀ c, s.getLast? = some c → p c = false) :
    trimEnd p s = s := by
  rw [trimEnd_eq_rdropWhile, List.rdropWhile_eq_self_iff]
  intro hne
  have hlast := h (s.getLast hne) (List.getLast?_eq_some_getLast hne)
  simp [hlast]

/-- What trimming takes away is a tail of the class. -/
theorem exists_trimEnd_append (p : Char → Bool) (s : Text) :
    ∃ b, s = trimEnd p s ++ b ∧ ∀ c ∈ b, p c = true := by
  refine ⟨s.rtakeWhile p, (List.rdropWhile_append_rtakeWhile ..).symm, ?_⟩
  intro c hc
  exact List.mem_rtakeWhile_imp hc

/-- What trimming leaves does not end in what is trimmed. -/
theorem not_of_getLast?_trimEnd {s : Text} {c : Char} (h : (trimEnd p s).getLast? = some c) :
    p c = false := by
  have hne : s.rdropWhile p ≠ [] := by
    intro hnil
    rw [trimEnd_eq_rdropWhile, hnil] at h
    simp at h
  have hlast := List.rdropWhile_last_not p s hne
  rw [trimEnd_eq_rdropWhile, List.getLast?_eq_some_getLast hne] at h
  simpa [Option.some.inj h] using hlast

theorem trimEnd_sublist (p : Char → Bool) (s : Text) : (trimEnd p s).Sublist s :=
  (List.rdropWhile_prefix p s).sublist

/-- What stripping takes away is white space at both ends. -/
theorem exists_append_strip_append (s : Text) :
    ∃ a b, s = a ++ (strip s ++ b) ∧ (∀ c ∈ a, isSpace c = true) ∧ ∀ c ∈ b, isSpace c = true := by
  obtain ⟨b, heq, hb⟩ := exists_trimEnd_append isSpace (s.dropWhile isSpace)
  refine ⟨s.takeWhile isSpace, b, ?_, fun _ hc => List.mem_takeWhile_imp hc, hb⟩
  rw [strip, stripEnd, ← heq, List.takeWhile_append_dropWhile]

/-- Stripping takes nothing away that is not white space. -/
theorem mem_strip {s : Text} {c : Char} (hc : isSpace c = false) (h : c ∈ s) : c ∈ strip s := by
  obtain ⟨a, b, heq, ha, hb⟩ := exists_append_strip_append s
  rw [heq] at h
  rcases List.mem_append.mp h with hmem | hmem
  · exact absurd (ha c hmem) (by simp [hc])
  · rcases List.mem_append.mp hmem with hmem | hmem
    · exact hmem
    · exact absurd (hb c hmem) (by simp [hc])

theorem strip_sublist (s : Text) : (strip s).Sublist s :=
  (trimEnd_sublist isSpace _).trans (List.dropWhile_sublist isSpace)

end DocMark.Text
