import DocMark.Flavor.TypeStyle
import DocMark.Proofs.Pattern.Split
import DocMark.Proofs.Text.Words

/-!
The tokens of a line.

Cutting a line at its first white space gives the token in front of it and the text behind it
(`headToken`, `afterToken`). Cutting a text into a number of tokens repeats this, with empty tokens when
the line has too few (`tokenize_run`). The words of a line are those of its tokens
(`words_eq_append_afterToken`), so cutting loses none of them.
-/

namespace DocMark.Text

/-- What stands before the first white space of a text; nothing if the text begins with white space. -/
def headToken (s : Text) : Text := s.takeWhile fun c => !isSpace c

/-- What stands behind the first white space of a text. -/
def afterToken (s : Text) : Text := (s.dropWhile fun c => !isSpace c).dropWhile isSpace

/-- Cut off `n` tokens and keep the remainder. -/
def tokens : (n : Nat) → Text → List Text
  | 0, s => [s]
  | n + 1, s => headToken s :: tokens n (afterToken s)

theorem not_isSpace_of_mem_headToken {s : Text} {c : Char} (h : c ∈ headToken s) : isSpace c = false := by
  simpa using List.mem_takeWhile_imp h

/-- **Cutting at the first white space keeps the words.** -/
theorem words_eq_append_afterToken (s : Text) : words s = words (headToken s) ++ words (afterToken s) := by
  have hsplit : s = headToken s ++ s.dropWhile fun c => !isSpace c :=
    List.takeWhile_append_dropWhile.symm
  conv_lhs => rw [hsplit]
  cases hrest : s.dropWhile fun c => !isSpace c with
  | nil =>
    rw [afterToken, hrest]
    simp
  | cons c r =>
    have hc : isSpace c = true := by
      have hhead := List.head?_dropWhile_not (fun c => !isSpace c) s
      rw [hrest] at hhead
      simpa using hhead
    have hafter : words (afterToken s) = words (c :: r) := by
      rw [afterToken, hrest]
      conv_rhs => rw [← List.takeWhile_append_dropWhile (p := isSpace) (l := c :: r)]
      exact (words_spaces_append (fun d hd => List.mem_takeWhile_imp hd) _).symm
    rw [hafter, words_append_space hc, words_cons_space hc]

/-- Behind the first white space no white space is left in front. -/
theorem afterToken_eq_nil_of_headToken {s : Text} (h : headToken (afterToken s) = []) :
    afterToken s = [] := by
  cases hafter : afterToken s with
  | nil => rfl
  | cons c r =>
    have hc := List.head?_dropWhile_not isSpace (s.dropWhile fun c => !isSpace c)
    rw [← afterToken, hafter] at hc
    rw [hafter, headToken, List.takeWhile_cons_of_pos (by simpa using hc)] at h
    cases h

/-! ### Splitting at white space -/

theorem drop_length_takeWhile (p : Char → Bool) (s : Text) :
    s.drop (s.takeWhile p).length = s.dropWhile p := by
  calc s.drop (s.takeWhile p).length
      = (s.takeWhile p ++ s.dropWhile p).drop (s.takeWhile p).length := by
        rw [List.takeWhile_append_dropWhile]
    _ = s.dropWhile p := List.drop_left

theorem take_length_takeWhile (p : Char → Bool) (s : Text) :
    s.take (s.takeWhile p).length = s.takeWhile p :=
  (List.prefix_iff_eq_take.mp (List.takeWhile_prefix p)).symm

/-- The search for white space passes over ink. -/
theorem findFrom_run_cons_ink {c : Char} (hc : isSpace c = false) (k : Nat) (r : Text) :
    Pattern.findFrom (Pattern.run isSpace) k (c :: r) = Pattern.findFrom (Pattern.run isSpace) (k + 1) r := by
  have hrun : Pattern.run isSpace (c :: r) = none := by simp [Pattern.run, hc]
  rw [Pattern.findFrom, hrun]

theorem findFrom_run_eq_none {s : Text} (h : s.dropWhile (fun c => !isSpace c) = []) (k : Nat) :
    Pattern.findFrom (Pattern.run isSpace) k s = none := by
  induction s generalizing k with
  | nil => rfl
  | cons c r ih =>
    rw [List.dropWhile_eq_nil_iff] at h
    have hc : isSpace c = false := by simpa using h c List.mem_cons_self
    rw [findFrom_run_cons_ink hc]
    exact ih (List.dropWhile_eq_nil_iff.mpr fun d hd => h d (List.mem_cons_of_mem c hd)) (k + 1)

/-- White space is found behind the head token. -/
theorem findFrom_run_eq_some {s gap : Text} (h : s.dropWhile (fun c => !isSpace c) = gap) (hne : gap ≠ [])
    (k : Nat) :
    Pattern.findFrom (Pattern.run isSpace) k s =
      some ⟨k + (headToken s).length, k + ((headToken s).length + (gap.takeWhile isSpace).length),
        gap.takeWhile isSpace, []⟩ := by
  induction s generalizing k with
  | nil => exact absurd h.symm hne
  | cons c r ih =>
    cases hc : isSpace c with
    | true =>
      have hrun : Pattern.run isSpace (c :: r) = some ⟨((c :: r).takeWhile isSpace).length, []⟩ := by
        simp [Pattern.run, hc]
      have hhead : headToken (c :: r) = [] := List.takeWhile_cons_of_neg (by simp [hc])
      rw [List.dropWhile_cons_of_neg (by simp [hc])] at h
      rw [Pattern.findFrom, hrun, hhead, ← h]
      simp only [take_length_takeWhile, List.length_nil, Nat.add_zero, Nat.zero_add]
    | false =>
      have hhead : headToken (c :: r) = c :: headToken r := List.takeWhile_cons_of_pos (by simp [hc])
      rw [List.dropWhile_cons_of_pos (by simp [hc])] at h
      rw [findFrom_run_cons_ink hc, ih h (k + 1), hhead, List.length_cons]
      simp only [Option.some.injEq, Match.mk.injEq, and_true]
      omega

/-- A run of white space is never empty, so the search for one starts where it is told to. -/
theorem searchStart_run (s : Text) (pos : Nat) (further : Bool) :
    (Pattern.run isSpace).searchStart s pos further = pos := by
  unfold Pattern.searchStart Pattern.run
  cases (s.drop pos).takeWhile isSpace with
  | nil => rfl
  | cons c r => simp

theorem separator?_run {s : Text} {pos : Nat} (hpos : pos ≤ s.length) (further : Bool) :
    (Pattern.run isSpace).separator? s pos further =
      (Pattern.findFrom (Pattern.run isSpace) pos (s.drop pos)).filter (·.stop ≤ s.length) := by
  rw [Pattern.separator?, searchStart_run, if_pos hpos]
  simp only [Pattern.find, Int.toNat_natCast, Nat.min_eq_left hpos]

/-- One split at white space cuts off the head token. -/
theorem exists_separator?_run {s : Text} {pos : Nat} (hpos : pos ≤ s.length)
    (h : (s.drop pos).dropWhile (fun c => !isSpace c) ≠ []) (further : Bool) :
    ∃ m, (Pattern.run isSpace).separator? s pos further = some m ∧ m.groups = [] ∧
      s.extract pos m.start = headToken (s.drop pos) ∧ s.drop m.stop = afterToken (s.drop pos) := by
  have hlength : (headToken (s.drop pos)).length +
      ((s.drop pos).dropWhile fun c => !isSpace c).length = s.length - pos := by
    rw [headToken, ← List.length_append, List.takeWhile_append_dropWhile, List.length_drop]
  have hgap := (((s.drop pos).dropWhile fun c => !isSpace c).takeWhile_sublist isSpace).length_le
  rw [separator?_run hpos, findFrom_run_eq_some rfl h]
  refine ⟨_, Option.filter_some_pos (decide_eq_true ?_), rfl, ?_, ?_⟩
  · dsimp only
    omega
  · rw [List.extract_eq_take_drop, Nat.add_sub_cancel_left]
    exact take_length_takeWhile _ _
  · rw [← List.drop_drop, ← List.drop_drop, headToken, drop_length_takeWhile, drop_length_takeWhile, afterToken]

theorem tokens_nil (n : Nat) : tokens n [] = List.replicate (n + 1) [] := by
  induction n with
  | zero => rfl
  | succ n ih =>
    rw [tokens, List.replicate_succ]
    exact congrArg (List.cons []) ih

/-- Splitting at most `n` times and filling up with empty tokens. -/
theorem splitFrom_run_append_replicate (n : Nat) {s : Text} {pos : Nat} (hpos : pos ≤ s.length)
    (further : Bool) :
    let pieces := ((Pattern.run isSpace).separators s).splitFrom n pos further
    pieces ++ List.replicate (n + 1 - pieces.length) [] = tokens n (s.drop pos) := by
  induction n generalizing pos further with
  | zero => rfl
  | succ n ih =>
    rw [Separators.splitFrom, tokens]
    by_cases hnone : (s.drop pos).dropWhile (fun c => !isSpace c) = []
    · have hnext : ((Pattern.run isSpace).separators s).next? pos further = none := by
        refine (separator?_run hpos further).trans ?_
        rw [findFrom_run_eq_none hnone]
        rfl
      have hall : headToken (s.drop pos) = s.drop pos := by
        conv_rhs => rw [← List.takeWhile_append_dropWhile (p := fun c => !isSpace c) (l := s.drop pos), hnone,
          List.append_nil]
        rfl
      have hafter : afterToken (s.drop pos) = [] := by
        rw [afterToken, hnone]
        rfl
      rw [hnext, hall, hafter, tokens_nil]
      rfl
    · obtain ⟨m, hm, hgroups, hhead, hafter⟩ := exists_separator?_run hpos hnone further
      have hnext : ((Pattern.run isSpace).separators s).next? pos further = some m := hm
      have hrest := ih (((Pattern.run isSpace).separators s).inside hnext).2.2 (m.start == m.stop)
      simp only [hnext, hgroups, hhead, List.cons_append, List.nil_append, List.length_cons,
        Nat.add_sub_add_right]
      rw [hrest, hafter]

/-- **Cutting a text into tokens at white space** cuts off all tokens but the last, one after another. -/
theorem tokenize_run (n : Nat) (s : Text) :
    Pattern.tokenize (Pattern.run isSpace) (n + 2 : Nat) s = .ok (tokens (n + 1) s) := by
  rw [Pattern.tokenize, Separators.tokenize_add_two]
  exact congrArg Except.ok (splitFrom_run_append_replicate (n + 1) (Nat.zero_le _) false)

/-- The head of a value is cut into its tokens as they stand. -/
theorem tokenizeHead_eq (n : Nat) (value : Text) :
    tokenizeHead (n + 2 : Nat) value =
      .ok (tokens (n + 1) (splitFirstLine value).1, (splitFirstLine value).2) := by
  rw [tokenizeHead]
  simp only [tokenize_run]
  rfl

end DocMark.Text
