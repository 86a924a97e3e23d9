import DocMark.Comment.Description
import DocMark.Proofs.Text.Lines
import DocMark.Proofs.Text.Markup
import DocMark.Proofs.Text.Words

/-!
Descriptions of prose only.

Without fences and list items every line goes to one paragraph buffer (`foldl_feed_prose`), and the
description is that buffer, cleaned as a whole (`describe_of_prose`). If moreover the lines are plain
text or bare paragraph markers, the words of the description are the words of the plain lines in order
(`words_describe_of_plain`).
-/

namespace DocMark.Comment

/-- A line of prose: no fence and no list item. -/
def IsProse (line : Text) : Prop := isFence line = false ∧ isListItem line = false

instance : DecidablePred IsProse := fun line =>
  inferInstanceAs (Decidable (isFence line = false ∧ isListItem line = false))

/-- Feeding prose to a draft outside code and lists gathers it. -/
theorem foldl_feed_prose {d : Draft} (hcode : d.inCode = false) (hlist : d.inList = false)
    {ls : List Text} (h : ∀ l ∈ ls, IsProse l) :
    ls.foldl Draft.feed d = { d with prose := d.prose ++ ls.map proseOf } := by
  induction ls generalizing d with
  | nil => simp
  | cons l ls ih =>
    obtain ⟨hfence, hitem⟩ := h l List.mem_cons_self
    have hfeed : d.feed l = { d with prose := d.prose ++ [proseOf l] } := by
      simp [Draft.feed, hfence, hitem, hcode, hlist]
    rw [List.foldl_cons, hfeed,
      ih (d := { d with prose := d.prose ++ [proseOf l] }) hcode hlist
        fun l' hl' => h l' (List.mem_cons_of_mem l hl')]
    simp

/-- A description of prose is its lines, joined and cleaned as one. -/
theorem describe_of_prose {raw : Text} (h : ∀ l ∈ lineTexts raw, IsProse l) :
    describe raw = Text.cleanLine (Text.replaceParagraphs "\n\n".toList
      (Text.joinWith [' '] ((lineTexts raw).map proseOf))) := by
  rw [describe, foldl_feed_prose rfl rfl h, Draft.finish]
  simp only [List.nil_append, Draft.flushOpen, Draft.flushProse]
  split
  · rename_i hnil
    rw [hnil]
    rfl
  · rfl

/-! ### Plain lines and bare markers -/

/-- The words that a line of prose adds to a description: a bare marker adds none. -/
def lineWords (line : Text) : List Text := if line = "<p>".toList then [] else Text.words line

/-- A line that is a bare paragraph marker, or holds no markup at all. -/
def IsPlainOrMarker (line : Text) : Prop := line = "<p>".toList ∨ '<' ∉ line

theorem proseOf_marker : proseOf "<p>".toList = "<p>".toList := by decide

theorem proseOf_of_notMem {l : Text} (h : '<' ∉ l) : proseOf l = Text.cleanLine l :=
  Text.codeToMarkdown_eq_self fun hmem => h ((Text.cleanLine_sublist l).subset hmem)

theorem lineWords_of_notMem {l : Text} (h : '<' ∉ l) : lineWords l = Text.words l := by
  apply if_neg
  rintro rfl
  exact h (by decide)

/-- Making Markdown of a line keeps its kind and its words. -/
theorem isPlainOrMarker_proseOf {l : Text} (h : IsPlainOrMarker l) :
    IsPlainOrMarker (proseOf l) ∧ lineWords (proseOf l) = lineWords l := by
  rcases h with rfl | h
  · rw [proseOf_marker]
    exact ⟨Or.inl rfl, rfl⟩
  · have hclean : '<' ∉ Text.cleanLine l := fun hmem => h ((Text.cleanLine_sublist l).subset hmem)
    rw [proseOf_of_notMem h]
    refine ⟨Or.inr hclean, ?_⟩
    rw [lineWords_of_notMem hclean, lineWords_of_notMem h, Text.words_cleanLine]

/-- At the end of the prose, a line adds its words. -/
theorem words_replaceParagraphs_last {p : Text} (hp : IsPlainOrMarker p) :
    Text.words (Text.replaceParagraphs "\n\n".toList p) = lineWords p := by
  rcases hp with rfl | hp
  · decide
  · rw [Text.replaceParagraphs_eq_self _ hp, lineWords_of_notMem hp]

/-- Before other lines, a line adds its words in front of theirs. -/
theorem words_replaceParagraphs_line {p : Text} (hp : IsPlainOrMarker p) (r : Text) :
    Text.words (Text.replaceParagraphs "\n\n".toList (p ++ ' ' :: r)) =
      lineWords p ++ Text.words (Text.replaceParagraphs "\n\n".toList r) := by
  have hspace : Text.isSpace ' ' = true := by decide
  have hcopy : Text.replaceParagraphs "\n\n".toList (' ' :: r) =
      ' ' :: Text.replaceParagraphs "\n\n".toList r :=
    Text.replaceParagraphs_append "\n\n".toList (x := [' ']) (by decide) r
  rcases hp with rfl | hp
  · -- The marker becomes two line feeds, which belong to no word.
    have hbreaks : ∀ c ∈ "\n\n".toList, Text.isSpace c = true := List.all_eq_true.mp rfl
    rw [Text.replaceParagraphs_marker, Text.words_spaces_append hbreaks, hcopy,
      Text.words_cons_space hspace]
    rfl
  · rw [Text.replaceParagraphs_append _ hp, hcopy, Text.words_append_space hspace,
      lineWords_of_notMem hp]

/-- The words of a paragraph buffer are the words of its lines. -/
theorem words_replaceParagraphs_joinWith {ps : List Text} (h : ∀ p ∈ ps, IsPlainOrMarker p) :
    Text.words (Text.replaceParagraphs "\n\n".toList (Text.joinWith [' '] ps)) =
      ps.flatMap lineWords := by
  induction ps with
  | nil => rfl
  | cons p ps ih =>
    have hp := h p List.mem_cons_self
    have hps := ih fun q hq => h q (List.mem_cons_of_mem p hq)
    by_cases hnil : ps = []
    · subst hnil
      simpa [Text.joinWith] using words_replaceParagraphs_last hp
    · rw [Text.joinWith_cons _ _ hnil, List.append_assoc, List.singleton_append,
        words_replaceParagraphs_line hp, hps, List.flatMap_cons]

/-- **The words of a plain description** are the words of its lines, in order. -/
theorem words_describe_of_plain {raw : Text} (hprose : ∀ l ∈ lineTexts raw, IsProse l)
    (hplain : ∀ l ∈ lineTexts raw, IsPlainOrMarker l) :
    Text.words (describe raw) = (lineTexts raw).flatMap lineWords := by
  have hlines : ∀ p ∈ (lineTexts raw).map proseOf, IsPlainOrMarker p := by
    intro p hp
    obtain ⟨l, hl, rfl⟩ := List.mem_map.mp hp
    exact (isPlainOrMarker_proseOf (hplain l hl)).1
  rw [describe_of_prose hprose, Text.words_cleanLine, words_replaceParagraphs_joinWith hlines,
    List.flatMap_map]
  apply List.flatMap_congr
  intro l hl
  exact (isPlainOrMarker_proseOf (hplain l hl)).2

end DocMark.Comment
