import DocMark.Text.Clean
import DocMark.Proofs.Text.Trim

/-!
The words of a text.

White space separates words and belongs to none. Two texts with `SameWords` have the same words whatever
stands before them, so the relation passes under every character; that is what carries it through the
recursions that clean a line. Main result: `words_cleanLine`, cleaning a line keeps its words.
-/

namespace DocMark.Text

/-- The words of a text: the pieces between its white space characters that are not empty. -/
def words (s : Text) : List Text := (s.splitOnP isSpace).filter (· ≠ [])

@[simp] theorem words_nil : words [] = [] := rfl

/-- **Words split at white space.** -/
theorem words_append_space {c : Char} (hc : isSpace c = true) (x y : Text) :
    words (x ++ c :: y) = words x ++ words y := by
  unfold words
  rw [List.splitOnP_append_cons x y hc, List.filter_append]

theorem words_cons_space {c : Char} (hc : isSpace c = true) (y : Text) :
    words (c :: y) = words y := by
  simpa using words_append_space hc [] y

/-- A text without white space is one word, unless it is empty. -/
theorem words_of_no_space {s : Text} (h : ∀ c ∈ s, isSpace c = false) (hne : s ≠ []) : words s = [s] := by
  rw [words, List.splitOnP_eq_singleton h, List.filter_cons_of_pos (by simpa using hne), List.filter_nil]

/-- White space at the end adds no words. -/
theorem words_append_spaces (x : Text) {sp : Text} (h : ∀ c ∈ sp, isSpace c = true) :
    words (x ++ sp) = words x := by
  induction sp generalizing x with
  | nil => rw [List.append_nil]
  | cons c sp ih =>
    rw [words_append_space (h c List.mem_cons_self)]
    have hsp : words ([] ++ sp) = words [] :=
      ih [] fun d hd => h d (List.mem_cons_of_mem c hd)
    rw [List.nil_append] at hsp
    rw [hsp, words_nil, List.append_nil]

/-- A text of white space has no words. -/
theorem words_eq_nil {sp : Text} (h : ∀ c ∈ sp, isSpace c = true) : words sp = [] := by
  simpa using words_append_spaces [] h

/-- White space in front adds no words. -/
theorem words_spaces_append {sp : Text} (h : ∀ c ∈ sp, isSpace c = true) (x : Text) :
    words (sp ++ x) = words x := by
  induction sp with
  | nil => rfl
  | cons c sp ih =>
    rw [List.cons_append, words_cons_space (h c List.mem_cons_self)]
    exact ih fun d hd => h d (List.mem_cons_of_mem c hd)

theorem words_stripEnd (s : Text) : words (stripEnd s) = words s := by
  obtain ⟨sp, hs, hsp⟩ := exists_trimEnd_append isSpace s
  conv_rhs => rw [hs]
  exact (words_append_spaces _ hsp).symm

theorem words_strip (s : Text) : words (strip s) = words s := by
  rw [strip, words_stripEnd]
  conv_rhs => rw [← List.takeWhile_append_dropWhile (p := isSpace) (l := s)]
  exact (words_spaces_append (fun c hc => List.mem_takeWhile_imp hc) _).symm

/-! ### Texts with the same words behind every text -/

/-- Two texts have the same words, whatever stands before them. -/
def SameWords (s s' : Text) : Prop := ∀ x, words (x ++ s) = words (x ++ s')

namespace SameWords

variable {s s' s'' : Text}

theorem refl (s : Text) : SameWords s s := fun _ => rfl

theorem trans (h : SameWords s s') (h' : SameWords s' s'') : SameWords s s'' :=
  fun x => (h x).trans (h' x)

theorem words_eq (h : SameWords s s') : words s = words s' := by
  simpa using h []

theorem cons (c : Char) (h : SameWords s s') : SameWords (c :: s) (c :: s') := by
  intro x
  simpa using h (x ++ [c])

/-- Behind white space, equal words are enough. -/
theorem cons_space {c : Char} (hc : isSpace c = true) (h : words s = words s') :
    SameWords (c :: s) (c :: s') := by
  intro x
  rw [words_append_space hc, words_append_space hc, h]

/-- White space before white space changes no words. -/
theorem double_space {c d : Char} (hc : isSpace c = true) (hd : isSpace d = true) (r : Text) :
    SameWords (d :: r) (c :: d :: r) := by
  intro x
  rw [words_append_space hd, words_append_space hc, words_cons_space hd]

end SameWords

/-! ### Cleaning a line -/

theorem isSpace_of_isBreak {c : Char} (h : isBreak c = true) : isSpace c = true := by
  simp only [isBreak, Bool.or_eq_true, beq_iff_eq] at h
  rcases h with (rfl | rfl) | rfl
  · decide
  · decide
  · decide

theorem isSpace_of_isBlank {c : Char} (h : isBlank c = true) : isSpace c = true := by
  simp only [isBlank, Bool.or_eq_true, beq_iff_eq] at h
  rcases h with rfl | rfl
  · decide
  · decide

/-- A text with a break ahead begins with white space. -/
theorem head_isSpace_of_breakAhead {s : Text} (h : breakAhead s = true) :
    ∃ c r, s = c :: r ∧ isSpace c = true := by
  cases s with
  | nil => simp [breakAhead] at h
  | cons c r =>
    refine ⟨c, r, rfl, ?_⟩
    by_cases hc : c = ' '
    · rw [hc]
      decide
    · rw [breakAhead, List.dropWhile_cons_of_neg (by simpa using hc)] at h
      exact isSpace_of_isBreak h

/-- Squeezing keeps the words, whatever stands before them. -/
theorem sameWords_squeeze (s : Text) : SameWords (squeeze s) s := by
  induction s with
  | nil => exact SameWords.refl []
  | cons c r ih =>
    rw [squeeze]
    split
    · rename_i h
      obtain ⟨rfl, hhead⟩ := h
      obtain ⟨r', rfl⟩ : ∃ r', r = ' ' :: r' := by
        cases r with
        | nil => simp at hhead
        | cons d r' => exact ⟨r', by simpa using hhead⟩
      exact ih.trans (SameWords.double_space (by decide) (by decide) r')
    · exact ih.cons c

/-- Dropping the spaces around breaks keeps the words. After a break only the words are kept, since a
word may now follow it directly. -/
theorem sameWords_tightenFrom (s : Text) :
    SameWords (tightenFrom false s) s ∧ words (tightenFrom true s) = words s := by
  induction s with
  | nil => exact ⟨SameWords.refl [], rfl⟩
  | cons c r ih =>
    obtain ⟨ihFalse, ihTrue⟩ := ih
    by_cases hc : c = ' '
    · subst hc
      have hspace : isSpace ' ' = true := by decide
      refine ⟨?_, ?_⟩
      · by_cases hbreak : breakAhead r = true
        · rw [tightenFrom, if_pos rfl, if_pos (by simp [hbreak])]
          obtain ⟨d, r', rfl, hd⟩ := head_isSpace_of_breakAhead hbreak
          exact ihFalse.trans (SameWords.double_space hspace hd r')
        · rw [tightenFrom, if_pos rfl, if_neg (by simp [hbreak])]
          exact ihFalse.cons ' '
      · rw [tightenFrom, if_pos rfl, if_pos (by simp), words_cons_space hspace]
        exact ihTrue
    · have hkeep : SameWords (c :: tightenFrom (isBreak c) r) (c :: r) := by
        cases hbreak : isBreak c with
        | true => exact SameWords.cons_space (isSpace_of_isBreak hbreak) ihTrue
        | false => exact ihFalse.cons c
      refine ⟨?_, ?_⟩
      · rw [tightenFrom, if_neg hc]
        exact hkeep
      · rw [tightenFrom, if_neg hc]
        exact hkeep.words_eq

theorem squeeze_sublist (s : Text) : (squeeze s).Sublist s := by
  induction s with
  | nil => exact List.Sublist.slnil
  | cons c r ih =>
    rw [squeeze]
    split
    · exact ih.cons c
    · exact ih.cons_cons c

theorem tightenFrom_sublist (after : Bool) (s : Text) : (tightenFrom after s).Sublist s := by
  induction s generalizing after with
  | nil => exact List.Sublist.slnil
  | cons c r ih =>
    rw [tightenFrom]
    split
    · rename_i hc
      subst hc
      split
      · exact (ih after).cons ' '
      · exact (ih false).cons_cons ' '
    · exact (ih (isBreak c)).cons_cons c

/-- Cleaning a line only leaves characters out. -/
theorem cleanLine_sublist (s : Text) : (cleanLine s).Sublist s :=
  ((squeeze_sublist _).trans (tightenFrom_sublist false _)).trans (strip_sublist s)

/-- **Cleaning a line keeps its words.** -/
theorem words_cleanLine (s : Text) : words (cleanLine s) = words s := by
  calc words (cleanLine s)
      = words (tighten (strip s)) := (sameWords_squeeze _).words_eq
    _ = words (strip s) := (sameWords_tightenFrom _).1.words_eq
    _ = words s := words_strip s

end DocMark.Text
