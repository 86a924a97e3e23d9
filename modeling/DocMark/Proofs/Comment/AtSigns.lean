import DocMark.Proofs.Comment.DescriptionInk
import DocMark.Proofs.Comment.TagLines
import DocMark.Proofs.Comment.WrapInk

/-!
At signs in a parsed comment.

Parsing writes no at sign that was not there, and drops the one of every tag line. So a description and
the values of its tags hold together no more at signs than the comment body holds besides those
(`count_parse_le`). An at sign is ink, so for both line machines it is enough that no line contributes
more at signs than stand on it (`count_contributedInk_le`).
-/

namespace DocMark.Comment

open Text

theorem count_proseOf_le (line : Text) : (proseOf line).count '@' ≤ line.count '@' :=
  (count_codeToMarkdown_le (by decide) _).trans (count_cleanLine_le line)

/-! ### What lines contribute -/

theorem count_ink (s : Text) : (ink s).count '@' = s.count '@' := List.count_filter (by decide)

/-- A line contributes no more at signs than it holds, if its prose does not. -/
theorem count_contribution_le {prose : Text → Text}
    (hprose : ∀ line, (prose line).count '@' ≤ line.count '@') (inside : Bool) (line : Text) :
    (contribution prose inside line).count '@' ≤ line.count '@' := by
  unfold contribution
  split
  · exact Nat.le_refl _
  · split
    · split
      · exact Nat.zero_le _
      · exact Nat.le_refl _
    · split
      · exact Nat.le_refl _
      · exact hprose line

/-- Lines contribute no more at signs than stand on them. -/
theorem count_contributedInk_le {prose : Text → Text}
    (hprose : ∀ line, (prose line).count '@' ≤ line.count '@') (ls : List Text) :
    (contributedInk prose ls).count '@' ≤ ls.flatten.count '@' := by
  induction ls using List.reverseRecOn with
  | nil => exact Nat.le_refl _
  | append_singleton ls line ih =>
    have hline := count_contribution_le hprose (insideFence ls) line
    rw [contributedInk_concat, List.count_append, count_ink, List.flatten_concat, List.count_append]
    omega

/-! ### Descriptions -/

theorem count_paragraphText_le (line : Text) :
    (Draft.paragraphText line).count '@' ≤ line.count '@' :=
  (count_replaceParagraphs_le List.not_mem_nil _).trans (count_proseOf_le line)

theorem count_lineText?_le {line text : Text} (h : lineText? line = some text) :
    text.count '@' ≤ line.count '@' := by
  unfold lineText? at h
  split at h
  · rename_i b r hdrop
    split at h
    · obtain rfl := Option.some.inj h
      have hle : (line.dropWhile isBlank).count '@' ≤ line.count '@' := count_dropWhile_le _ _
      rw [hdrop, List.count_cons, List.count_cons] at hle
      omega
    · exact absurd h (by simp)
  · exact absurd h (by simp)

/-- A description holds no more at signs than its raw text. -/
theorem count_describe_le (raw : Text) : (describe raw).count '@' ≤ raw.count '@' := by
  have hlines : (lineTexts raw).flatten.count '@' ≤ raw.count '@' := by
    rw [← count_flatten_lines (a := '@') (by decide) raw]
    exact count_flatten_filterMap_le (fun _ _ h => count_lineText?_le h) _
  rw [← count_ink, describe, Draft.ink_finish_foldl]
  exact (count_contributedInk_le count_paragraphText_le _).trans hlines

/-! ### Values of tags -/

theorem count_flowed_le (line : Text) : (LineWrap.flowed line).count '@' ≤ line.count '@' := by
  have hpieces : ∀ ps : List Text, (ps.flatMap proseOf).count '@' ≤ ps.flatten.count '@' := by
    intro ps
    induction ps with
    | nil => exact Nat.le_refl _
    | cons p ps ih =>
      have hp := count_proseOf_le p
      rw [List.flatMap_cons, List.flatten_cons, List.count_append, List.count_append]
      omega
  exact (hpieces _).trans (count_flatten_cut_le _ _)

/-- A value holds no more at signs than its lines. -/
theorem count_feedAll_le (ls : List Text) :
    (LineWrap.feedAll ls).buffer.count '@' ≤ ls.flatten.count '@' := by
  rw [← count_ink, LineWrap.ink_buffer_feedAll]
  exact count_contributedInk_le count_flowed_le ls

/-- A value holds no more at signs than the text behind the tag. -/
theorem count_valueOf_le (rest : Text) : (valueOf rest).count '@' ≤ rest.count '@' := by
  calc (valueOf rest).count '@' ≤ (LineWrap.feedAll (cut continuation? (stripEnd rest))).buffer.count '@' :=
        count_stripEnd_le _
    _ ≤ (cut continuation? (stripEnd rest)).flatten.count '@' := count_feedAll_le _
    _ ≤ (stripEnd rest).count '@' := count_flatten_cut_le _ _
    _ ≤ rest.count '@' := count_stripEnd_le rest

/-! ### The whole comment -/

/-- A tag's value lacks the at sign that its chunk begins with. -/
theorem count_parseTag?_lt {chunk : Text} (hat : chunk.head? = some '@') {tag : Tag}
    (h : parseTag? chunk = some tag) : tag.value.count '@' < chunk.count '@' := by
  obtain ⟨r, rfl⟩ : ∃ r, chunk = '@' :: r := by
    cases chunk with
    | nil => simp at hat
    | cons c r => exact ⟨r, by simpa using hat⟩
  have hdrop : ('@' :: r).dropWhile isBlank = '@' :: r := List.dropWhile_cons_of_neg (by decide)
  simp only [parseTag?, hdrop] at h
  split at h
  · exact absurd h (by simp)
  · obtain rfl := Option.some.inj h
    have hvalue := count_valueOf_le (r.dropWhile isLetter)
    have hletters : (r.dropWhile isLetter).count '@' ≤ r.count '@' := count_dropWhile_le _ r
    rw [List.count_cons_self]
    exact Nat.lt_succ_of_le (hvalue.trans hletters)

/-- Of each chunk, at least the at sign that begins it is lost. -/
theorem count_parseTags_le {chunks : List Text} (hat : ∀ p ∈ chunks, p.head? = some '@') :
    ((parseTags chunks).map Tag.value).flatten.count '@' + chunks.length ≤
      chunks.flatten.count '@' := by
  induction chunks with
  | nil => exact Nat.le_refl _
  | cons p ps ih =>
    have hp := hat p List.mem_cons_self
    have hps := ih fun q hq => hat q (List.mem_cons_of_mem p hq)
    rw [List.flatten_cons, List.count_append, List.length_cons, parseTags]
    rw [parseTags] at hps
    cases ht : parseTag? p with
    | none =>
      have hpos : 0 < p.count '@' := List.count_pos_iff.mpr (List.mem_of_head? hp)
      rw [List.filterMap_cons_none ht]
      omega
    | some tag =>
      have hlt := count_parseTag?_lt hp ht
      rw [List.filterMap_cons_some ht, List.map_cons, List.flatten_cons, List.count_append]
      omega

/-- Cutting a body into chunks makes no at signs. -/
theorem count_flatten_cutTagsFrom_le (b : Bool) (k : Nat) (s : Text) :
    (cutTagsFrom b k s).flatten.count '@' ≤ s.count '@' := by
  induction s generalizing b k with
  | nil => simp [cutTagsFrom]
  | cons c r ih =>
    have hcons : r.count '@' ≤ (c :: r).count '@' := List.count_le_count_cons
    cases k with
    | succ k => exact (ih false k).trans hcons
    | zero =>
      rw [cutTagsFrom]
      split
      · rename_i n _
        exact (ih false (n - 1)).trans hcons
      · have hrest := ih (c == '\n') 0
        rw [flatten_consHead]
        simp only [List.count_cons]
        omega

/-- **Parsing loses the at sign of every tag line**, and writes none. -/
theorem count_parse_le (doc : Text) :
    (parse doc).1.count '@' + ((parse doc).2.map Tag.value).flatten.count '@' +
      ((lines doc).filter isTagLine).length ≤ doc.count '@' := by
  obtain ⟨d, chunks, hcut⟩ := List.exists_cons_of_ne_nil (cutTagsFrom_ne_nil true 0 doc)
  have hparse : parse doc = (describe d, parseTags chunks) := parse_of_cutTags hcut
  have hlength : chunks.length = ((lines doc).filter isTagLine).length := by
    have := length_cutTags doc
    rw [hcut, List.length_cons] at this
    omega
  have hheads : ∀ p ∈ chunks, p.head? = some '@' := by
    intro p hp
    have hmem : p ∈ (cutTagsFrom true 0 doc).tail := by
      rw [hcut]
      exact hp
    exact head?_of_mem_tail_cutTags hmem
  have hchunks := count_parseTags_le hheads
  have hdesc := count_describe_le d
  have hall := count_flatten_cutTagsFrom_le true 0 doc
  rw [hcut, List.flatten_cons, List.count_append] at hall
  simp only [hparse, ← hlength]
  omega

end DocMark.Comment
