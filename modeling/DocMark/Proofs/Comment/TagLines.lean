import DocMark.Comment.Description
import DocMark.Proofs.Text.Lines
import Mathlib.Data.List.TakeWhile

/-!
Tag lines divide a comment body.

The cutter reads a body character by character; `cutTagsFrom_line` and `cutTagsFrom_tagLine` say what it
does line by line: a line without a tag goes to the piece that is open, and a tag line opens a new piece
with what stands behind its gutter. So a body without tag lines is all description
(`splitTags_eq_of_forall`), and there is one piece more than there are tag lines (`length_cutTags`).
-/

namespace DocMark.Comment

def isTagLine (line : Text) : Bool := (tagGutter? line).isSome

theorem dropWhile_append_of_head {p : Char → Bool} {l e : Text}
    (he : ∀ c, e.head? = some c → p c = false) : (l ++ e).dropWhile p = l.dropWhile p ++ e := by
  rw [List.dropWhile_append]
  split
  · rename_i hnil
    rw [List.isEmpty_iff.mp hnil, List.nil_append]
    cases e with
    | nil => rfl
    | cons c e => rw [List.dropWhile_cons_of_neg (by simp [he c rfl])]
  · rfl

/-- A gutter is recognised on its own line: what stands behind the line feed does not matter. -/
theorem tagGutter?_append_newline (l r : Text) : tagGutter? (l ++ '\n' :: r) = tagGutter? l := by
  have hhead : ∀ c, ('\n' :: r).head? = some c → Text.isBlank c = false := by
    intro c hc
    obtain rfl : '\n' = c := by simpa using hc
    decide
  unfold tagGutter?
  rw [dropWhile_append_of_head hhead]
  cases hl : l.dropWhile Text.isBlank with
  | nil => rfl
  | cons c q =>
    rw [List.cons_append]
    split
    · rename_i q' hq'
      obtain ⟨rfl, rfl⟩ := List.cons.inj hq'
      simp only [dropWhile_append_of_head hhead]
      cases hq : q.dropWhile Text.isBlank with
      | nil => rfl
      | cons d u =>
        rw [List.cons_append]
        split
        · rename_i u' hu'
          obtain ⟨rfl, rfl⟩ := List.cons.inj hu'
          simp only [List.length_append, Option.some.injEq]
          omega
        · rename_i hne
          split
          · rename_i u' hu'
            exact absurd (by rw [(List.cons.inj hu').1]) (hne (u ++ '\n' :: r))
          · rfl
    · rename_i hne
      split
      · rename_i q' hq'
        exact absurd (by rw [(List.cons.inj hq').1]) (hne (q ++ '\n' :: r))
      · rfl

/-- What a recognised gutter is: blanks, a star and blanks, right before an at sign. -/
theorem tagGutter?_eq_some {s : Text} {n : Nat} (h : tagGutter? s = some n) :
    ∃ lead gap q, (∀ c ∈ lead, Text.isBlank c = true) ∧ (∀ c ∈ gap, Text.isBlank c = true) ∧
      s = lead ++ '*' :: (gap ++ '@' :: q) ∧ n = (lead ++ '*' :: gap).length := by
  unfold tagGutter? at h
  split at h
  · rename_i r hr
    split at h
    · rename_i q hq
      have hs : s = s.takeWhile Text.isBlank ++ '*' :: r := by
        rw [← hr, List.takeWhile_append_dropWhile]
      have hrq : r = r.takeWhile Text.isBlank ++ '@' :: q := by
        rw [← hq, List.takeWhile_append_dropWhile]
      refine ⟨s.takeWhile Text.isBlank, r.takeWhile Text.isBlank, q,
        fun c hc => List.mem_takeWhile_imp hc, fun c hc => List.mem_takeWhile_imp hc, ?_, ?_⟩
      · rw [← hrq]
        exact hs
      · have hlen := congrArg List.length hs
        have hlen' := congrArg List.length hrq
        simp only [List.length_append, List.length_cons] at hlen hlen' ⊢
        have hn := Option.some.inj h
        omega
    · exact absurd h (by simp)
  · exact absurd h (by simp)

/-- Behind a tag's gutter stands its at sign. -/
theorem head?_drop_tagGutter {s : Text} {n : Nat} (h : tagGutter? s = some n) :
    (s.drop n).head? = some '@' := by
  obtain ⟨lead, gap, q, -, -, rfl, rfl⟩ := tagGutter?_eq_some h
  rw [show lead ++ '*' :: (gap ++ '@' :: q) = (lead ++ '*' :: gap) ++ '@' :: q by simp,
    List.drop_left]
  rfl

theorem cutTagsFrom_ne_nil (b : Bool) (k : Nat) (s : Text) : cutTagsFrom b k s ≠ [] := by
  induction s generalizing b k with
  | nil => simp [cutTagsFrom]
  | cons c r ih =>
    cases k with
    | succ k => exact ih false k
    | zero =>
      rw [cutTagsFrom]
      split
      · simp
      · rw [Text.consHead_eq_modifyHead (ih _ _)]
        simp [ih]

theorem cutTagsFrom_false_eq_drop (k : Nat) (s : Text) :
    cutTagsFrom false k s = cutTagsFrom false 0 (s.drop k) := by
  induction s generalizing k with
  | nil => simp [cutTagsFrom]
  | cons c r ih =>
    cases k with
    | zero => rfl
    | succ k => rw [cutTagsFrom, ih, List.drop_succ_cons]

/-- Inside a line nothing is cut. -/
theorem cutTagsFrom_false_line {l : Text} (hl : '\n' ∉ l) (r : Text) :
    cutTagsFrom false 0 (l ++ '\n' :: r) =
      (cutTagsFrom true 0 r).modifyHead (l ++ '\n' :: ·) := by
  induction l with
  | nil =>
    rw [List.nil_append, cutTagsFrom]
    exact Text.consHead_eq_modifyHead (cutTagsFrom_ne_nil true 0 r)
  | cons c l ih =>
    have hc : (c == '\n') = false := by
      have hne : c ≠ '\n' := fun heq => hl (heq ▸ List.mem_cons_self)
      simpa using hne
    rw [List.cons_append, cutTagsFrom, if_neg (by simp)]
    change Text.consHead c (cutTagsFrom (c == '\n') 0 (l ++ '\n' :: r)) = _
    rw [hc, ih fun hmem => hl (List.mem_cons_of_mem c hmem),
      Text.consHead_eq_modifyHead (by simp [cutTagsFrom_ne_nil]), List.modifyHead_modifyHead]
    rfl

/-- Inside a line, a text without a line feed is one piece. -/
theorem cutTagsFrom_false_lastLine {l : Text} (hl : '\n' ∉ l) : cutTagsFrom false 0 l = [l] := by
  induction l with
  | nil => rfl
  | cons c l ih =>
    have hc : (c == '\n') = false := by
      have hne : c ≠ '\n' := fun heq => hl (heq ▸ List.mem_cons_self)
      simpa using hne
    rw [cutTagsFrom, if_neg (by simp)]
    change Text.consHead c (cutTagsFrom (c == '\n') 0 l) = _
    rw [hc, ih fun hmem => hl (List.mem_cons_of_mem c hmem)]
    rfl

/-- At the start of a line without a tag nothing is cut either. -/
theorem cutTagsFrom_true_eq_false {s : Text} (h : tagGutter? s = none) :
    cutTagsFrom true 0 s = cutTagsFrom false 0 s := by
  cases s with
  | nil => rfl
  | cons c r => simp [cutTagsFrom, h]

/-- A tag line opens a new piece behind its gutter. -/
theorem cutTagsFrom_true_of_tag {s : Text} {n : Nat} (h : tagGutter? s = some n) :
    cutTagsFrom true 0 s = [] :: cutTagsFrom false 0 (s.drop n) := by
  obtain ⟨lead, gap, q, -, -, rfl, hn⟩ := tagGutter?_eq_some h
  cases hs : lead ++ '*' :: (gap ++ '@' :: q) with
  | nil => simp at hs
  | cons c r =>
    rw [hs] at h
    have hpos : n = n - 1 + 1 := by
      simp only [List.length_append, List.length_cons] at hn
      omega
    rw [cutTagsFrom, if_pos rfl, h]
    change [] :: cutTagsFrom false (n - 1) r = _
    rw [cutTagsFrom_false_eq_drop]
    conv_rhs => rw [hpos, List.drop_succ_cons]

/-! ### Line by line -/

/-- **A line without a tag** goes to the piece that is open. -/
theorem cutTagsFrom_line {l : Text} (hl : '\n' ∉ l) (h : tagGutter? l = none) (r : Text) :
    cutTagsFrom true 0 (l ++ '\n' :: r) = (cutTagsFrom true 0 r).modifyHead (l ++ '\n' :: ·) := by
  rw [cutTagsFrom_true_eq_false (by rw [tagGutter?_append_newline, h]), cutTagsFrom_false_line hl]

/-- **A tag line** opens a piece with what stands behind its gutter. -/
theorem cutTagsFrom_tagLine {l : Text} (hl : '\n' ∉ l) {n : Nat} (h : tagGutter? l = some n)
    (r : Text) :
    cutTagsFrom true 0 (l ++ '\n' :: r) =
      [] :: (cutTagsFrom true 0 r).modifyHead (l.drop n ++ '\n' :: ·) := by
  have hn : n ≤ l.length := by
    obtain ⟨lead, gap, q, -, -, rfl, rfl⟩ := tagGutter?_eq_some h
    simp only [List.length_append, List.length_cons]
    omega
  rw [cutTagsFrom_true_of_tag (by rw [tagGutter?_append_newline, h]),
    List.drop_append_of_le_length hn, cutTagsFrom_false_line]
  intro hmem
  exact hl (List.mem_of_mem_drop hmem)

theorem cutTagsFrom_lastLine {l : Text} (hl : '\n' ∉ l) (h : tagGutter? l = none) :
    cutTagsFrom true 0 l = [l] := by
  rw [cutTagsFrom_true_eq_false h, cutTagsFrom_false_lastLine hl]

/-- A body without tag lines is one piece. -/
theorem cutTagsFrom_eq_singleton {doc : Text} (h : ∀ l ∈ Text.lines doc, tagGutter? l = none) :
    cutTagsFrom true 0 doc = [doc] := by
  induction doc using Text.lines_induction with
  | last l hl =>
    exact cutTagsFrom_lastLine hl (h l (by rw [Text.lines_eq_singleton hl]; exact List.mem_cons_self))
  | line l r hl ih =>
    rw [Text.lines_append_cons hl] at h
    rw [cutTagsFrom_line hl (h l List.mem_cons_self), ih fun l' hl' => h l' (List.mem_cons_of_mem l hl')]
    rfl

theorem parse_of_splitTags {doc raw : Text} {chunks : List Text} (h : splitTags doc = (raw, chunks)) :
    parse doc = (describe raw, parseTags chunks) := by
  rw [parse, h]

theorem parse_of_cutTags {doc raw : Text} {chunks : List Text}
    (h : cutTagsFrom true 0 doc = raw :: chunks) : parse doc = (describe raw, parseTags chunks) :=
  parse_of_splitTags (by rw [splitTags, h])

/-- **A body without tag lines is all description.** -/
theorem splitTags_eq_of_forall {doc : Text} (h : ∀ l ∈ Text.lines doc, tagGutter? l = none) :
    splitTags doc = (doc, []) := by
  rw [splitTags, cutTagsFrom_eq_singleton h]

/-- There is one piece more than there are tag lines. -/
theorem length_cutTags (doc : Text) :
    (cutTagsFrom true 0 doc).length = 1 + ((Text.lines doc).filter isTagLine).length := by
  induction doc using Text.lines_induction with
  | last l hl =>
    rw [Text.lines_eq_singleton hl]
    cases h : tagGutter? l with
    | none =>
      rw [cutTagsFrom_lastLine hl h]
      simp [isTagLine, h]
    | some n =>
      have hdrop : '\n' ∉ l.drop n := fun hmem => hl (List.mem_of_mem_drop hmem)
      rw [cutTagsFrom_true_of_tag h, cutTagsFrom_false_lastLine hdrop]
      simp [isTagLine, h]
  | line l r hl ih =>
    rw [Text.lines_append_cons hl]
    cases h : tagGutter? l with
    | none =>
      rw [cutTagsFrom_line hl h, List.filter_cons_of_neg (by simp [isTagLine, h])]
      simpa using ih
    | some n =>
      rw [cutTagsFrom_tagLine hl h, List.filter_cons_of_pos (by simp [isTagLine, h])]
      simp only [List.length_cons, List.length_modifyHead, ih]
      omega

/-- The piece behind a gutter begins with the at sign, and so does every piece but the first. -/
theorem head?_of_mem_tail_cutTags {doc piece : Text}
    (h : piece ∈ (cutTagsFrom true 0 doc).tail) : piece.head? = some '@' := by
  induction doc using Text.lines_induction with
  | last l hl =>
    cases ht : tagGutter? l with
    | none => simp [cutTagsFrom_lastLine hl ht] at h
    | some n =>
      have hdrop : '\n' ∉ l.drop n := fun hmem => hl (List.mem_of_mem_drop hmem)
      rw [cutTagsFrom_true_of_tag ht, cutTagsFrom_false_lastLine hdrop] at h
      obtain rfl : piece = l.drop n := by simpa using h
      exact head?_drop_tagGutter ht
  | line l r hl ih =>
    cases ht : tagGutter? l with
    | none =>
      rw [cutTagsFrom_line hl ht, List.tail_modifyHead] at h
      exact ih h
    | some n =>
      rw [cutTagsFrom_tagLine hl ht, List.tail_cons] at h
      obtain ⟨p, ps, hps⟩ := List.exists_cons_of_ne_nil (cutTagsFrom_ne_nil true 0 r)
      rw [hps, List.modifyHead_cons] at h
      rcases List.mem_cons.mp h with rfl | hmem
      · have hhead := head?_drop_tagGutter ht
        cases hd : l.drop n with
        | nil => simp [hd] at hhead
        | cons c q => simpa [hd] using hhead
      · exact ih (by rw [hps]; exact hmem)

end DocMark.Comment
