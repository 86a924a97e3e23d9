import DocMark.Proofs.Comment.Composition
import DocMark.Proofs.Text.LowerLines

/-!
Cutting a comment body at its tag lines loses nothing.

A body is its description and, for every tag line, the gutter of that line and the chunk behind it.
`IsTagCut` says so, and that the gutters stand at the starts of lines and that no tag line is left inside of a
piece. Cuts grow line by line, as the cutter works: a line without a tag goes to the front (`IsTagCut.line`), and
with a gutter before it a front becomes a chunk (`IsTagCut.behindGutter`). So the cutter makes a cut of every body
(`exists_isTagCut`). Main statement: `splitTags_lossless`.
-/

namespace DocMark.Comment

open Text

/-! ### Gutters -/

/-- The gutter of a comment line: blanks, one star and blanks. -/
def IsGutter (g : Text) : Prop :=
  ∃ lead gap : Text, (∀ c ∈ lead, isBlank c = true) ∧ (∀ c ∈ gap, isBlank c = true) ∧ g = lead ++ '*' :: gap

theorem isTagLine_iff {l : Text} : isTagLine l = true ↔ OpensWithTag l := by
  constructor
  · intro h
    obtain ⟨n, hn⟩ := Option.isSome_iff_exists.mp h
    obtain ⟨lead, gap, q, hlead, hgap, hl, -⟩ := tagGutter?_eq_some hn
    exact ⟨lead, gap, q, hlead, hgap, hl⟩
  · intro h
    obtain ⟨n, hn⟩ := h.exists_tagGutter
    rw [isTagLine, hn]
    rfl

instance : DecidablePred OpensWithTag := fun _ => decidable_of_iff _ isTagLine_iff

theorem not_opensWithTag {l : Text} (h : tagGutter? l = none) : ¬ OpensWithTag l := by
  rw [← isTagLine_iff, isTagLine, h]
  exact Bool.false_ne_true

/-- A tag line is cut behind its gutter, before the at sign. -/
theorem exists_gutter {l : Text} {n : Nat} (h : tagGutter? l = some n) :
    ∃ g q, IsGutter g ∧ l = g ++ '@' :: q ∧ l.drop n = '@' :: q := by
  obtain ⟨lead, gap, q, hlead, hgap, hl, rfl⟩ := tagGutter?_eq_some h
  have hcut : l = (lead ++ '*' :: gap) ++ '@' :: q := by
    rw [hl, List.append_assoc, List.cons_append]
  refine ⟨lead ++ '*' :: gap, q, ⟨lead, gap, hlead, hgap, rfl⟩, hcut, ?_⟩
  rw [hcut, List.drop_left]

/-! ### Whole lines -/

/-- The text consists of whole lines: it is empty or ends with a line feed, and a line starts behind it. -/
def WholeLines (t : Text) : Prop := t = [] ∨ t.getLast? = some '\n'

theorem WholeLines.line_append {t : Text} (h : WholeLines t) (l : Text) : WholeLines (l ++ '\n' :: t) := by
  rcases h with rfl | h
  · exact Or.inr (by simp)
  · exact Or.inr (by simp [List.getLast?_cons, h])

theorem WholeLines.append_cons {c : Char} {t : Text} (h : WholeLines (c :: t)) (x : Text) :
    WholeLines (x ++ c :: t) := by
  rcases h with h | h
  · cases h
  · exact Or.inr (by rw [List.getLast?_append_of_ne_nil x (List.cons_ne_nil c t), h])

/-! ### Cuts -/

/-- A front and pairs of a gutter and a chunk, one after another. -/
def assemble (front : Text) (parts : List (Text × Text)) : Text :=
  front ++ parts.flatMap fun p => p.1 ++ p.2

/-- The body is cut at its tag lines into a front and, for each tag line, its gutter and a chunk. -/
structure IsTagCut (doc front : Text) (parts : List (Text × Text)) : Prop where
  /-- Nothing is lost and nothing is added. -/
  whole : doc = assemble front parts
  gutter : ∀ p ∈ parts, IsGutter p.1
  /-- Every gutter starts a line of the body. -/
  starts : ∀ before p after, parts = before ++ p :: after → WholeLines (assemble front before)
  atSign : ∀ p ∈ parts, p.2.head? = some '@'
  /-- No line of the front is a tag line. -/
  front_lines : ∀ l ∈ lines front, ¬ OpensWithTag l
  /-- No line of a chunk behind its first one is a tag line. -/
  chunk_lines : ∀ p ∈ parts, LowerLines (¬ OpensWithTag ·) p.2

namespace IsTagCut

variable {doc l front : Text} {parts : List (Text × Text)}

theorem lastLine (hl : '\n' ∉ l) (htag : ¬ OpensWithTag l) : IsTagCut l l [] where
  whole := by simp [assemble]
  gutter := List.forall_mem_nil _
  starts := by simp
  atSign := List.forall_mem_nil _
  front_lines := by
    rw [lines_eq_singleton hl]
    exact List.forall_mem_singleton.mpr htag
  chunk_lines := List.forall_mem_nil _

/-- A line without a tag goes to the front. -/
theorem line (h : IsTagCut doc front parts) (hl : '\n' ∉ l) (htag : ¬ OpensWithTag l) :
    IsTagCut (l ++ '\n' :: doc) (l ++ '\n' :: front) parts where
  whole := by simp [h.whole, assemble]
  gutter := h.gutter
  starts := by
    intro before p after hparts
    simpa [assemble] using (h.starts before p after hparts).line_append l
  atSign := h.atSign
  front_lines := by
    rw [lines_append_cons hl]
    exact List.forall_mem_cons.mpr ⟨htag, h.front_lines⟩
  chunk_lines := h.chunk_lines

/-- With a gutter before it, a front that begins with an at sign becomes a chunk. -/
theorem behindGutter {g : Text} (h : IsTagCut ('@' :: doc) ('@' :: front) parts) (hg : IsGutter g) :
    IsTagCut (g ++ '@' :: doc) [] ((g, '@' :: front) :: parts) where
  whole := by simp [h.whole, assemble]
  gutter := List.forall_mem_cons.mpr ⟨hg, h.gutter⟩
  starts := by
    intro before p after hparts
    cases before with
    | nil => exact Or.inl rfl
    | cons p' before =>
      obtain ⟨rfl, hrest⟩ := List.cons.inj hparts
      simpa [assemble] using (h.starts before p after hrest).append_cons g
  atSign := List.forall_mem_cons.mpr ⟨rfl, h.atSign⟩
  front_lines := List.forall_mem_singleton.mpr (not_opensWithTag rfl)
  chunk_lines :=
    List.forall_mem_cons.mpr ⟨fun l hl => h.front_lines l (List.mem_of_mem_tail hl), h.chunk_lines⟩

end IsTagCut

/-- **The cutter makes a cut at the tag lines.** -/
theorem exists_isTagCut (doc : Text) :
    ∃ front parts, cutTagsFrom true 0 doc = front :: parts.map Prod.snd ∧ IsTagCut doc front parts := by
  -- Line by line. Behind its gutter, a tag line is a line without a tag.
  induction doc using lines_induction with
  | last l hl =>
    cases htag : tagGutter? l with
    | none => exact ⟨l, [], cutTagsFrom_lastLine hl htag, .lastLine hl (not_opensWithTag htag)⟩
    | some n =>
      obtain ⟨g, q, hg, rfl, hdrop⟩ := exists_gutter htag
      have hq : '\n' ∉ '@' :: q := fun hmem => hl (List.mem_append_right g hmem)
      refine ⟨[], [(g, '@' :: q)], ?_, (IsTagCut.lastLine hq (not_opensWithTag rfl)).behindGutter hg⟩
      rw [cutTagsFrom_true_of_tag htag, hdrop, cutTagsFrom_false_lastLine hq]
      rfl
  | line l r hl ih =>
    obtain ⟨front, parts, hcut, h⟩ := ih
    cases htag : tagGutter? l with
    | none =>
      refine ⟨l ++ '\n' :: front, parts, ?_, h.line hl (not_opensWithTag htag)⟩
      rw [cutTagsFrom_line hl htag, hcut, List.modifyHead_cons]
    | some n =>
      obtain ⟨g, q, hg, rfl, hdrop⟩ := exists_gutter htag
      have hq : '\n' ∉ '@' :: q := fun hmem => hl (List.mem_append_right g hmem)
      refine ⟨[], (g, '@' :: q ++ '\n' :: front) :: parts, ?_, ?_⟩
      · rw [cutTagsFrom_tagLine hl htag, hcut, hdrop]
        rfl
      · rw [List.append_assoc]
        exact (h.line hq (not_opensWithTag rfl)).behindGutter hg

/-- **Splitting a comment body is lossless and exact.** The body is the description and, for every chunk, a gutter
that starts a line, and the chunk, which begins with an at sign. There are as many chunks as the body has tag
lines, and no other line of the pieces is one. -/
theorem splitTags_lossless (doc : Text) :
    ∃ parts : List (Text × Text),
      (splitTags doc).2 = parts.map Prod.snd ∧
      IsTagCut doc (splitTags doc).1 parts ∧
      parts.length = (lines doc).countP fun l => OpensWithTag l := by
  obtain ⟨front, parts, hcut, h⟩ := exists_isTagCut doc
  have hsplit : splitTags doc = (front, parts.map Prod.snd) := by rw [splitTags, hcut]
  have hcount : parts.length = (lines doc).countP isTagLine := by
    have hpieces := length_cutTags doc
    rw [hcut, List.length_cons, List.length_map, ← List.countP_eq_length_filter] at hpieces
    omega
  refine ⟨parts, by rw [hsplit], by rw [hsplit]; exact h, hcount.trans ?_⟩
  exact List.countP_congr fun l _ => by rw [isTagLine_iff, decide_eq_true_iff]

/-- A tag on the first line, a stray star and two adjacent tag lines. -/
example : splitTags "*@a\n ** @b\n * @c\n\t*\t@d".toList =
    ([], ["@a\n ** @b\n".toList, "@c\n".toList, "@d".toList]) := by decide

end DocMark.Comment
