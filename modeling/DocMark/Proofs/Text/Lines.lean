import DocMark.Text.Basic
import Mathlib.Data.List.Basic

/-!
Lines of a text.

Cutting at a separator and joining are the library's `List.splitOn` and `List.intercalate`
(`splitAt_eq_splitOn`, `joinWith_eq_intercalate`), so the lines of a text and the text with these
lines determine each other: `joinWith_lines` in one direction, `lines_joinWith` in the other.
-/

namespace DocMark.Text

/-! ### Cutting and joining -/

theorem consHead_eq_modifyHead {c : Char} {ps : List Text} (h : ps ≠ []) :
    consHead c ps = ps.modifyHead (List.cons c) := by
  cases ps with
  | nil => exact absurd rfl h
  | cons p ps => rfl

theorem splitAt_eq_splitOn (sep : Char) (s : Text) : splitAt sep s = s.splitOn sep := by
  rw [List.splitOn_eq_splitOnP]
  induction s with
  | nil => rfl
  | cons c r ih =>
    rw [splitAt, List.splitOnP_cons_eq_if_modifyHead, ih]
    by_cases hc : c = sep
    · simp [hc]
    · rw [if_neg hc, consHead_eq_modifyHead (List.splitOnP_ne_nil _ r)]
      simp [hc]

theorem joinWith_eq_intercalate (sep : Text) : ∀ ps : List Text,
    joinWith sep ps = sep.intercalate ps
  | [] => rfl
  | [p] => by rw [joinWith, List.intercalate_singleton]
  | p :: q :: ps => by
    rw [joinWith, List.intercalate_cons_cons, joinWith_eq_intercalate sep (q :: ps)]

theorem joinWith_cons (sep p : Text) {ps : List Text} (h : ps ≠ []) :
    joinWith sep (p :: ps) = p ++ sep ++ joinWith sep ps := by
  cases ps with
  | nil => exact absurd rfl h
  | cons q qs => rfl

theorem joinWith_ne_nil {sep l : Text} {ls : List Text} (h : l ≠ []) : joinWith sep (l :: ls) ≠ [] := by
  cases ls with
  | nil => exact h
  | cons k ks =>
    rw [joinWith_cons sep l (List.cons_ne_nil k ks), List.append_assoc]
    exact List.append_ne_nil_of_left_ne_nil h _

theorem joinWith_concat (sep : Text) (ls : List Text) (l : Text) :
    joinWith sep (ls ++ [l]) = ls.flatMap (· ++ sep) ++ l := by
  induction ls with
  | nil => rfl
  | cons k ls ih =>
    rw [List.cons_append, joinWith_cons sep k (by simp), ih, List.flatMap_cons]
    simp

theorem joinWith_append (sep : Text) {ps qs : List Text} (hps : ps ≠ []) (hqs : qs ≠ []) :
    joinWith sep (ps ++ qs) = joinWith sep ps ++ sep ++ joinWith sep qs := by
  induction ps with
  | nil => exact absurd rfl hps
  | cons p ps ih =>
    by_cases hnil : ps = []
    · rw [hnil, List.singleton_append, joinWith_cons sep p hqs]
      rfl
    · rw [List.cons_append, joinWith_cons sep p (by simp [hnil]), ih hnil, joinWith_cons sep p hnil]
      simp only [List.append_assoc]

/-! ### The lines of a text -/

theorem lines_eq_splitOn (s : Text) : lines s = s.splitOn '\n' := splitAt_eq_splitOn '\n' s

theorem lines_ne_nil (s : Text) : lines s ≠ [] := splitAt_ne_nil '\n' s

/-- A text is its lines with line feeds in between. -/
@[simp] theorem joinWith_lines (s : Text) : joinWith ['\n'] (lines s) = s := by
  rw [joinWith_eq_intercalate, lines_eq_splitOn, List.intercalate_splitOn]

/-- Texts without line feeds are the lines of their join. -/
theorem lines_joinWith {ls : List Text} (hne : ls ≠ []) (h : ∀ l ∈ ls, '\n' ∉ l) :
    lines (joinWith ['\n'] ls) = ls := by
  rw [joinWith_eq_intercalate, lines_eq_splitOn, List.splitOn_intercalate '\n' h hne]

/-- **Lines split at a line feed.** -/
theorem lines_append_newline (a b : Text) : lines (a ++ '\n' :: b) = lines a ++ lines b := by
  simp only [lines_eq_splitOn, List.splitOn_eq_splitOnP]
  exact List.splitOnP_append_cons a b (by simp)

theorem lines_eq_singleton {l : Text} (h : '\n' ∉ l) : lines l = [l] := by
  rw [lines_eq_splitOn, List.splitOn_eq_splitOnP]
  apply List.splitOnP_eq_singleton
  intro c hc
  have hne : c ≠ '\n' := fun he => h (he ▸ hc)
  simpa using hne

/-- A text that has a line before its first line feed. -/
theorem lines_append_cons {l : Text} (h : '\n' ∉ l) (r : Text) :
    lines (l ++ '\n' :: r) = l :: lines r := by
  rw [lines_append_newline, lines_eq_singleton h]
  rfl

/-- A text that begins with whole lines. -/
theorem lines_flatMap_append {ls : List Text} (h : ∀ l ∈ ls, '\n' ∉ l) (r : Text) :
    lines (ls.flatMap (· ++ ['\n']) ++ r) = ls ++ lines r := by
  induction ls with
  | nil => rfl
  | cons l ls ih =>
    have hl := h l List.mem_cons_self
    have hls := ih fun k hk => h k (List.mem_cons_of_mem l hk)
    rw [List.flatMap_cons, List.append_assoc, List.append_assoc, List.singleton_append,
      lines_append_cons hl, hls]
    rfl

/-- A text is its first line, or its first line, a line feed and a remainder. -/
theorem firstLine_cases (s : Text) :
    '\n' ∉ s ∨ ∃ l r, '\n' ∉ l ∧ s = l ++ '\n' :: r := by
  by_cases h : '\n' ∈ s
  · obtain ⟨l, r, rfl, hl⟩ := List.eq_append_cons_of_mem h
    exact Or.inr ⟨l, r, hl, rfl⟩
  · exact Or.inl h

/-- Texts by their lines: what holds of a last line, and of a line before a text of which it holds,
holds of every text. -/
theorem lines_induction {P : Text → Prop} (last : ∀ l, '\n' ∉ l → P l)
    (line : ∀ l r, '\n' ∉ l → P r → P (l ++ '\n' :: r)) (s : Text) : P s := by
  induction hn : s.length using Nat.strongRecOn generalizing s with
  | _ n ih =>
    rcases firstLine_cases s with hs | ⟨l, r, hl, rfl⟩
    · exact last s hs
    · refine line l r hl (ih r.length ?_ r rfl)
      simp only [List.length_append, List.length_cons] at hn
      omega

/-- No line holds a line feed. -/
theorem notMem_of_mem_lines {s l : Text} (h : l ∈ lines s) : '\n' ∉ l := by
  induction s using lines_induction with
  | last l' hl =>
    rw [lines_eq_singleton hl] at h
    obtain rfl := List.mem_singleton.mp h
    exact hl
  | line l' r hl ih =>
    rw [lines_append_cons hl] at h
    rcases List.mem_cons.mp h with rfl | h
    · exact hl
    · exact ih h

theorem lines_cons {c : Char} (hc : c ≠ '\n') (s : Text) :
    lines (c :: s) = (lines s).modifyHead (List.cons c) := by
  rw [lines, splitAt, if_neg hc, consHead_eq_modifyHead (splitAt_ne_nil '\n' s)]
  rfl

/-- Every character but the line feeds stands on a line. -/
theorem exists_mem_lines {s : Text} {c : Char} (hc : c ≠ '\n') (h : c ∈ s) :
    ∃ l ∈ lines s, c ∈ l := by
  induction s using lines_induction with
  | last l hl => exact ⟨l, by rw [lines_eq_singleton hl]; exact List.mem_cons_self, h⟩
  | line l r hl ih =>
    rw [lines_append_cons hl]
    rcases List.mem_append.mp h with hmem | hmem
    · exact ⟨l, List.mem_cons_self, hmem⟩
    · rcases List.mem_cons.mp hmem with heq | hmem
      · exact absurd heq hc
      · obtain ⟨l', hl', hin⟩ := ih hmem
        exact ⟨l', List.mem_cons_of_mem l hl', hin⟩

theorem mem_of_mem_lines {s l : Text} (hl : l ∈ lines s) {c : Char} (hc : c ∈ l) : c ∈ s := by
  induction s using lines_induction with
  | last l' hl' =>
    rw [lines_eq_singleton hl'] at hl
    obtain rfl := List.mem_singleton.mp hl
    exact hc
  | line l' r hl' ih =>
    rw [lines_append_cons hl'] at hl
    rcases List.mem_cons.mp hl with rfl | hl
    · exact List.mem_append_left _ hc
    · exact List.mem_append_right _ (List.mem_cons_of_mem _ (ih hl))

/-! ### Texts inside lines -/

/-- The search for a stretch tells whether the stretch is there. -/
theorem holds_iff_infix {w s : Text} : holds w s = true ↔ w <:+: s := by
  induction s with
  | nil => rw [holds, List.isEmpty_iff, List.infix_nil]
  | cons c r ih => rw [holds, Bool.or_eq_true, ih, startsWith, List.isPrefixOf_iff_prefix, List.infix_cons_iff]

/-- A stretch that does not hold `c` lies on one side of every `c`. -/
theorem infix_append_cons_iff {w x y : Text} {c : Char} (hc : c ∉ w) :
    w <:+: x ++ c :: y ↔ w <:+: x ∨ w <:+: y := by
  constructor
  · rintro ⟨a, b, h⟩
    rcases List.append_eq_append_iff.mp h with ⟨d, hx, -⟩ | ⟨d, hd, hy⟩
    · exact Or.inl ⟨a, d, hx.symm⟩
    · cases d with
      | nil => exact Or.inl ⟨a, [], by simpa using hd⟩
      | cons e d =>
        obtain ⟨rfl, rfl⟩ := List.cons.inj hy
        rcases List.append_eq_append_iff.mp hd with ⟨f, -, hw⟩ | ⟨f, -, hf⟩
        · exact absurd (hw ▸ List.mem_append_right f List.mem_cons_self) hc
        · cases f with
          | nil => exact absurd (by simp [show w = c :: d from by simpa using hf.symm]) hc
          | cons e' f =>
            obtain ⟨-, rfl⟩ := List.cons.inj hf
            exact Or.inr ⟨f, b, rfl⟩
  · rintro (h | h)
    · exact h.trans (List.prefix_append x (c :: y)).isInfix
    · exact h.trans ((List.suffix_cons c y).trans (List.suffix_append x (c :: y))).isInfix

/-- A stretch without line feeds lies on one line. -/
theorem infix_joinWith_iff {w : Text} (hw : '\n' ∉ w) {ls : List Text} (hne : ls ≠ []) :
    w <:+: joinWith ['\n'] ls ↔ ∃ l ∈ ls, w <:+: l := by
  induction ls with
  | nil => exact absurd rfl hne
  | cons l ls ih =>
    by_cases hls : ls = []
    · simp [hls, joinWith]
    · rw [joinWith_cons _ _ hls, List.append_assoc, List.singleton_append,
        infix_append_cons_iff hw, ih hls]
      simp

end DocMark.Text
