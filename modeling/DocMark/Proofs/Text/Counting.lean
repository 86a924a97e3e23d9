import DocMark.Proofs.Text.Lines
import DocMark.Proofs.Text.Trim
import DocMark.Proofs.Text.Words
import DocMark.Text.Markup

/-!
How often a character occurs.

Joining, cutting and replacing never make a character more frequent, as long as it does not
occur in what they write. A list of texts is counted through its concatenation.
-/

namespace DocMark.Text

variable {a : Char}

theorem count_joinWith {sep : Text} (h : a ∉ sep) (ls : List Text) :
    (joinWith sep ls).count a = ls.flatten.count a := by
  induction ls with
  | nil => rfl
  | cons l ls ih =>
    by_cases hnil : ls = []
    · simp [hnil, joinWith]
    · rw [joinWith_cons sep l hnil]
      simp only [List.count_append, List.flatten_cons, ih, List.count_eq_zero_of_not_mem h]
      omega

theorem count_flatten_lines (ha : a ≠ '\n') (s : Text) : (lines s).flatten.count a = s.count a := by
  have hjoin : (joinWith ['\n'] (lines s)).count a = (lines s).flatten.count a :=
    count_joinWith (by simpa using ha) _
  rw [← hjoin, joinWith_lines]

/-- Lines that gain no characters one by one gain none together. -/
theorem count_flatten_filterMap_le {f : Text → Option Text}
    (h : ∀ l t, f l = some t → t.count a ≤ l.count a) (ls : List Text) :
    (ls.filterMap f).flatten.count a ≤ ls.flatten.count a := by
  induction ls with
  | nil => exact Nat.le_refl _
  | cons l ls ih =>
    rw [List.flatten_cons, List.count_append]
    cases hl : f l with
    | none =>
      rw [List.filterMap_cons_none hl]
      omega
    | some t =>
      rw [List.filterMap_cons_some hl, List.flatten_cons, List.count_append]
      have := h l t hl
      omega

theorem count_stripEnd_le (s : Text) : (stripEnd s).count a ≤ s.count a :=
  (trimEnd_sublist isSpace s).count_le a

theorem count_strip_le (s : Text) : (strip s).count a ≤ s.count a := (strip_sublist s).count_le a

theorem count_cleanLine_le (s : Text) : (cleanLine s).count a ≤ s.count a :=
  (cleanLine_sublist s).count_le a

theorem count_dropWhile_le (p : Char → Bool) (s : Text) : (s.dropWhile p).count a ≤ s.count a :=
  (List.dropWhile_sublist p).count_le a

/-! ### Replacing and cutting -/

/-- Hits that are replaced by no more than they hold add nothing. -/
theorem count_replaceFrom_le {m : Text → Option (Nat × Text)}
    (hm : ∀ s n w, m s = some (n, w) → w.count a ≤ (s.take n).count a) (k : Nat) (s : Text) :
    (replaceFrom m k s).count a ≤ (s.drop k).count a := by
  induction s generalizing k with
  | nil => simp [replaceFrom]
  | cons c r ih =>
    cases k with
    | succ k => exact ih k
    | zero =>
      rw [replaceFrom, List.drop_zero]
      split
      · rename_i n w hhit
        have hw := hm _ n w hhit
        have hrest := ih (n - 1)
        rw [List.count_append]
        cases n with
        | zero =>
          rw [List.take_zero, List.count_nil] at hw
          have hskip : r.count a ≤ (c :: r).count a := List.count_le_count_cons
          simp only [Nat.zero_sub, List.drop_zero] at hrest ⊢
          omega
        | succ n =>
          have hsplit : (c :: r).count a = ((c :: r).take (n + 1)).count a + (r.drop n).count a := by
            rw [← List.drop_succ_cons (a := c), ← List.count_append, List.take_append_drop]
          rw [Nat.add_sub_cancel] at hrest ⊢
          omega
      · have hrest := ih 0
        rw [List.drop_zero] at hrest
        simp only [List.count_cons]
        omega

theorem flatten_consHead (c : Char) (ps : List Text) : (consHead c ps).flatten = c :: ps.flatten := by
  cases ps with
  | nil => rfl
  | cons p ps => rfl

/-- The pieces of a text hold no more than the text. -/
theorem count_flatten_cutFrom_le (m : Text → Option Nat) (k : Nat) (s : Text) :
    (cutFrom m k s).flatten.count a ≤ (s.drop k).count a := by
  induction s generalizing k with
  | nil => simp [cutFrom]
  | cons c r ih =>
    cases k with
    | succ k => exact ih k
    | zero =>
      rw [cutFrom, List.drop_zero]
      split
      · rename_i n _
        rw [List.flatten_cons, List.nil_append]
        calc (cutFrom m (n - 1) r).flatten.count a ≤ (r.drop (n - 1)).count a := ih _
          _ ≤ r.count a := (List.drop_sublist _ r).count_le a
          _ ≤ (c :: r).count a := List.count_le_count_cons
      · have hrest := ih 0
        rw [List.drop_zero] at hrest
        rw [flatten_consHead]
        simp only [List.count_cons]
        omega

theorem count_flatten_cut_le (m : Text → Option Nat) (s : Text) :
    (cut m s).flatten.count a ≤ s.count a :=
  count_flatten_cutFrom_le m 0 s

/-! ### Markup -/

theorem suffix_of_isPrefixOf? {w s r : Text} (h : w.isPrefixOf? s = some r) : r <:+ s :=
  ⟨w, List.isPrefixOf?_eq_some_iff_append_eq.mp h⟩

theorem afterCodeTag?_suffix {closing : Bool} {s r : Text} (h : afterCodeTag? closing s = some r) :
    r <:+ s := by
  unfold afterCodeTag? at h
  split at h
  · rename_i q
    have hq : q.dropWhile isSpace <:+ '<' :: q :=
      (List.dropWhile_suffix _).trans (List.suffix_cons _ _)
    simp only at h
    split at h
    · rename_i u hu
      obtain ⟨v, hv, hcode⟩ := Option.bind_eq_some_iff.mp hu
      have hvq : v <:+ q.dropWhile isSpace := by
        split at hv
        · obtain ⟨x, hx, rfl⟩ := Option.map_eq_some_iff.mp hv
          exact (List.dropWhile_suffix _).trans (suffix_of_isPrefixOf? hx)
        · obtain rfl := Option.some.inj hv
          exact List.suffix_refl _
      exact (suffix_of_isPrefixOf? h).trans <| (List.dropWhile_suffix _).trans <|
        (suffix_of_isPrefixOf? hcode).trans <| hvq.trans hq
    · exact absurd h (by simp)
  · exact absurd h (by simp)

/-- The stretch before a closing tag stands in the text, with the tag behind it. -/
theorem upToCodeEnd?_eq_some {s body rest : Text} (h : upToCodeEnd? s = some (body, rest)) :
    ∃ mid, s = body ++ mid ++ rest := by
  induction s generalizing body with
  | nil => simp [upToCodeEnd?] at h
  | cons c r ih =>
    rw [upToCodeEnd?] at h
    split at h
    · rename_i rest' htag
      obtain ⟨rfl, rfl⟩ : body = [] ∧ rest' = rest := by simpa [eq_comm] using h
      obtain ⟨mid, hmid⟩ := afterCodeTag?_suffix htag
      exact ⟨mid, hmid.symm⟩
    · split at h
      · exact absurd h (by simp)
      · obtain ⟨⟨body', rest'⟩, hup, heq⟩ := Option.map_eq_some_iff.mp h
        obtain ⟨rfl, rfl⟩ : c :: body' = body ∧ rest' = rest := by simpa using heq
        obtain ⟨mid, rfl⟩ := ih hup
        exact ⟨mid, rfl⟩

theorem count_codeSpan (ha : a ∉ "`".toList) (s : Text) : (codeSpan s).count a = s.count a := by
  simp only [codeSpan, List.count_append, List.count_eq_zero_of_not_mem ha]
  omega

/-- Code elements become code spans of what they hold. -/
theorem count_codeToMarkdown_le (ha : a ∉ "`".toList) (s : Text) :
    (codeToMarkdown s).count a ≤ s.count a := by
  apply count_replaceFrom_le
  intro t n w hhit
  unfold codeElement? at hhit
  split at hhit
  · rename_i body rest hbody
    obtain ⟨u, htag, hup⟩ := Option.bind_eq_some_iff.mp hbody
    obtain ⟨mid, rfl⟩ := upToCodeEnd?_eq_some hup
    obtain ⟨v, rfl⟩ := afterCodeTag?_suffix htag
    obtain ⟨rfl, rfl⟩ : (v ++ (body ++ mid ++ rest)).length - rest.length = n ∧ codeSpan body = w := by
      simpa using hhit
    have htake : (v ++ (body ++ mid ++ rest)).take
        ((v ++ (body ++ mid ++ rest)).length - rest.length) = v ++ (body ++ mid) := by
      rw [← List.append_assoc, List.length_append, Nat.add_sub_cancel, List.take_left]
    simp only [htake, count_codeSpan ha, List.count_append]
    omega
  · exact absurd hhit (by simp)

theorem count_replaceParagraphs_le {w : Text} (hw : a ∉ w) (s : Text) :
    (replaceParagraphs w s).count a ≤ s.count a := by
  apply count_replaceFrom_le
  intro t n w' hhit
  obtain ⟨k, -, heq⟩ := Option.map_eq_some_iff.mp hhit
  obtain ⟨rfl, rfl⟩ : k = n ∧ w = w' := by simpa using heq
  rw [List.count_eq_zero_of_not_mem hw]
  exact Nat.zero_le _

end DocMark.Text
