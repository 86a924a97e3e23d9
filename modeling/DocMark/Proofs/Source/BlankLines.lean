import DocMark.Source.Section
import DocMark.Proofs.Text.Lines
import DocMark.Proofs.Text.Trim

/-!
How blank comment lines are marked.

The marking reads a comment body from left to right with one bit of state. It works line by line
(`markBlankLines_eq`): a line that ends in a star, apart from spaces, gets a paragraph marker in place
of these spaces, and every other line stays as it is.
-/

namespace DocMark.Source

/-- A line with its paragraph marker, if it ends in a star apart from spaces. -/
def markLine (line : Text) : Text :=
  let kept := Text.trimEnd (· == ' ') line
  if kept.getLast? = some '*' then kept ++ " <p>".toList else line

/-- A star and spaces at the end of a line become a star and a marker. -/
theorem markLine_append_star (x : Text) {sp : Text} (h : ∀ c ∈ sp, c = ' ') :
    markLine (x ++ '*' :: sp) = x ++ "* <p>".toList := by
  have hkept : Text.trimEnd (· == ' ') (x ++ '*' :: sp) = x ++ ['*'] := by
    rw [show x ++ '*' :: sp = (x ++ ['*']) ++ sp by simp, Text.trimEnd_append_of_all]
    · exact Text.trimEnd_append_singleton x (by decide)
    · intro c hc
      simp [h c hc]
  simp [markLine, hkept]

/-- A line that does not end in a star and spaces stays as it is. -/
theorem markLine_eq_self {l : Text} (h : (Text.trimEnd (· == ' ') l).getLast? ≠ some '*') :
    markLine l = l :=
  if_neg h

/-- A line stays as it is when something without a star, and not only spaces, stands at its end. -/
theorem markLine_append_of_notMem (x : Text) {y : Text} (hy : '*' ∉ y) (hne : ∃ d ∈ y, d ≠ ' ') :
    markLine (x ++ y) = x ++ y := by
  apply markLine_eq_self
  have hkeep : ∃ d ∈ y, (d == ' ') = false := by
    obtain ⟨d, hd, hsp⟩ := hne
    exact ⟨d, hd, by simpa using hsp⟩
  have hnil : Text.trimEnd (· == ' ') y ≠ [] := by
    intro hnil
    obtain ⟨d, hd, hsp⟩ := hkeep
    exact absurd (Text.trimEnd_eq_nil_iff.mp hnil d hd) (by simp [hsp])
  rw [Text.trimEnd_append_of_exists x hkeep, List.getLast?_append_of_ne_nil x hnil]
  intro hlast
  exact hy ((Text.trimEnd_sublist _ y).subset (List.mem_of_getLast? hlast))

theorem markLine_of_notMem {l : Text} (h : '*' ∉ l) : markLine l = l := by
  apply markLine_eq_self
  intro hlast
  exact h ((Text.trimEnd_sublist _ l).subset (List.mem_of_getLast? hlast))

/-- Marking looks at the end of a line: a character before it stays, unless it is a star and only
spaces follow. -/
theorem markLine_cons {c : Char} {l : Text} (h : c ≠ '*' ∨ ∃ d ∈ l, d ≠ ' ') :
    markLine (c :: l) = c :: markLine l := by
  by_cases hl : ∃ d ∈ l, d ≠ ' '
  · have hkept : Text.trimEnd (· == ' ') (c :: l) = c :: Text.trimEnd (· == ' ') l := by
      apply Text.trimEnd_append_of_exists [c]
      obtain ⟨d, hd, hne⟩ := hl
      exact ⟨d, hd, by simpa using hne⟩
    have hnil : Text.trimEnd (· == ' ') l ≠ [] := by
      intro hnil
      obtain ⟨d, hd, hne⟩ := hl
      exact hne (by simpa using Text.trimEnd_eq_nil_iff.mp hnil d hd)
    obtain ⟨e, es, hes⟩ := List.exists_cons_of_ne_nil hnil
    simp only [markLine, hkept, hes, List.getLast?_cons_cons]
    split
    · rfl
    · rfl
  · have hc : c ≠ '*' := h.resolve_right hl
    have hspaces : ∀ d ∈ l, (d == ' ') = true := by
      intro d hd
      by_contra hne
      exact hl ⟨d, hd, by simpa using hne⟩
    have hrest : markLine l = l := by
      apply markLine_eq_self
      rw [Text.trimEnd_eq_nil_iff.mpr hspaces]
      simp
    rw [hrest]
    apply markLine_eq_self
    rw [show c :: l = [c] ++ l from rfl, Text.trimEnd_append_of_all [c] hspaces]
    by_cases hsp : c = ' '
    · simp [hsp, Text.trimEnd]
    · rw [show [c] = [] ++ [c] from rfl, Text.trimEnd_append_singleton [] (by simpa using hsp)]
      simpa using hc

/-! ### Reading from left to right -/

/-- Spaces that belong to a star are passed over. -/
theorem markBlankFrom_true_spaces {sp : Text} (h : ∀ c ∈ sp, c = ' ') (r : Text) :
    markBlankFrom true (sp ++ '\n' :: r) = '\n' :: markBlankFrom false r := by
  induction sp with
  | nil => simp [markBlankFrom]
  | cons c sp ih =>
    have hc : c = ' ' := h c List.mem_cons_self
    have hsp : ∀ d ∈ sp, d = ' ' := fun d hd => h d (List.mem_cons_of_mem c hd)
    simp [markBlankFrom, hc, ih hsp]

/-- What the marking does with the first line of a text: the text ends with the line, or a line feed
and further text follow. -/
theorem markBlankFrom_line {l : Text} (hl : '\n' ∉ l) {e e' : Text}
    (he : (e = [] ∧ e' = []) ∨ ∃ r, e = '\n' :: r ∧ e' = '\n' :: markBlankFrom false r) :
    markBlankFrom false (l ++ e) = markLine l ++ e' := by
  induction l with
  | nil =>
    rcases he with ⟨rfl, rfl⟩ | ⟨r, rfl, rfl⟩
    · rfl
    · rfl
  | cons c l ih =>
    have hl' : '\n' ∉ l := fun hmem => hl (List.mem_cons_of_mem c hmem)
    specialize ih hl'
    by_cases hkeep : c ≠ '*' ∨ ∃ d ∈ l, d ≠ ' '
    · rw [markLine_cons hkeep, List.cons_append, List.cons_append, ← ih, markBlankFrom]
      simp only [Bool.false_and, Bool.false_eq_true, ite_false]
      split
      · -- A star with more than spaces behind it on its line.
        rename_i hstar
        obtain ⟨d, hd, hne⟩ := hkeep.resolve_left (absurd hstar)
        obtain ⟨a, as, has⟩ : ∃ a as, l.dropWhile (· == ' ') = a :: as := by
          apply List.exists_cons_of_ne_nil
          intro hnil
          exact hne (by simpa using List.dropWhile_eq_nil_iff.mp hnil d hd)
        have hdrop : (l ++ e).dropWhile (· == ' ') = a :: (as ++ e) := by
          rw [List.dropWhile_append, if_neg (by simp [has]), has]
          rfl
        have ha : a ≠ '\n' := by
          intro heq
          apply hl'
          have hmem : a ∈ l.dropWhile (· == ' ') := has ▸ List.mem_cons_self
          exact heq ▸ (List.dropWhile_suffix _).subset hmem
        simp [hdrop, ha]
      · rfl
    · have hc : c = '*' := by
        by_contra hne
        exact hkeep (Or.inl hne)
      have hspaces : ∀ d ∈ l, d = ' ' := by
        intro d hd
        by_contra hne
        exact hkeep (Or.inr ⟨d, hd, hne⟩)
      subst hc
      rw [show '*' :: l = [] ++ '*' :: l from rfl, markLine_append_star [] hspaces]
      have hdrop : (l ++ e).dropWhile (· == ' ') = e.dropWhile (· == ' ') :=
        List.dropWhile_append_of_pos fun d hd => by simp [hspaces d hd]
      rcases he with ⟨rfl, rfl⟩ | ⟨r, rfl, rfl⟩
      · simp only [List.nil_append, List.cons_append, markBlankFrom, hdrop]
        simp
      · simp only [List.nil_append, List.cons_append, markBlankFrom, hdrop,
          markBlankFrom_true_spaces hspaces]
        simp

/-- **Marking works line by line.** -/
theorem markBlankLines_eq (doc : Text) :
    markBlankLines doc = Text.joinWith ['\n'] ((Text.lines doc).map markLine) := by
  induction doc using Text.lines_induction with
  | last l hl =>
    have hend : markBlankFrom false (l ++ []) = markLine l ++ [] :=
      markBlankFrom_line hl (Or.inl ⟨rfl, rfl⟩)
    rw [Text.lines_eq_singleton hl, markBlankLines]
    simpa [Text.joinWith] using hend
  | line l r hl ih =>
    rw [Text.lines_append_cons hl, List.map_cons,
      Text.joinWith_cons _ _ (by simp [Text.lines_ne_nil]), ← ih, markBlankLines,
      markBlankFrom_line hl (Or.inr ⟨r, rfl, rfl⟩)]
    simp [markBlankLines]

/-- Marking adds nothing but the marker. -/
theorem mem_of_mem_markLine {c : Char} (hc : c ∉ " <p>".toList) {l : Text} (h : c ∈ markLine l) :
    c ∈ l := by
  rw [markLine] at h
  split at h
  · rcases List.mem_append.mp h with hmem | hmem
    · exact (Text.trimEnd_sublist _ l).subset hmem
    · exact absurd hmem hc
  · exact h

/-- The lines of a marked body are the marked lines of the body. -/
theorem lines_markBlankLines (doc : Text) :
    Text.lines (markBlankLines doc) = (Text.lines doc).map markLine := by
  rw [markBlankLines_eq, Text.lines_joinWith]
  · simp [Text.lines_ne_nil]
  · intro l hl
    obtain ⟨l', hl', rfl⟩ := List.mem_map.mp hl
    exact fun hmem => Text.notMem_of_mem_lines hl' (mem_of_mem_markLine (by decide) hmem)

end DocMark.Source
