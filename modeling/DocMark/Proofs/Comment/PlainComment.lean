import DocMark.Proofs.Comment.Gutter
import DocMark.Proofs.Comment.Prose
import DocMark.Proofs.Source.SingleComment

/-!
What reaches the description of a plain comment.

A plain comment has text on its opening line and behind the gutters of its other lines, and none of it
means anything beyond its words. The texts behind the gutters all reach the description, in order. The
opening line is another matter: its text counts only in a body without any star, and only if a blank
stands before it. `description_words_iff` says so, and hence when no word is lost.
-/

namespace DocMark.Comment

/-! ### Plain comments -/

/-- A text without special characters that is no list item. -/
structure IsPlainText (text : Text) : Prop where
  chars : ∀ c ∈ text, c ∉ "*@<`/".toList
  not_item : isListItem text = false

/-- A comment line behind the opening one, with its text: blanks and a star, and then nothing, or a
blank and the text. -/
inductive GutterLine : (line text : Text) → Prop where
  | bare {lead : Text} : (∀ c ∈ lead, Text.isBlank c = true) → GutterLine (lead ++ ['*']) []
  | spaced {lead : Text} {b : Char} {text : Text} : (∀ c ∈ lead, Text.isBlank c = true) →
      Text.isBlank b = true → IsPlainText text → GutterLine (lead ++ '*' :: b :: text) text

/-- The lines behind the opening one, with their texts. The last line may hold blanks only. -/
inductive GutterLines : (lines texts : List Text) → Prop where
  | nil : GutterLines [] []
  | last {l : Text} : (∀ c ∈ l, Text.isBlank c = true) → GutterLines [l] []
  | cons {l text : Text} {ls texts : List Text} : GutterLine l text → GutterLines ls texts →
      GutterLines (l :: ls) (text :: texts)

/-- A plain comment body: its opening line, and the texts behind the gutters of the other lines. -/
structure PlainBody (body opening : Text) (texts : List Text) : Prop where
  no_return : '\r' ∉ body
  opening_plain : IsPlainText opening
  gutters : ∃ rest, Text.lines body = opening :: rest ∧ GutterLines rest texts

/-- The text of the opening line counts as a comment line: the body has no star, so that one is put in
front of it, and a blank follows that star. -/
def OpeningKept (body opening : Text) : Prop :=
  '*' ∉ body ∧ opening.head?.any Text.isBlank = true

instance (body opening : Text) : Decidable (OpeningKept body opening) := by
  unfold OpeningKept; infer_instance

namespace IsPlainText

variable {text : Text}

theorem notMem (h : IsPlainText text) {c : Char} (hc : c ∈ "*@<`/".toList) : c ∉ text :=
  fun hmem => h.chars c hmem hc

theorem isProse (h : IsPlainText text) : IsProse text := by
  refine ⟨?_, h.not_item⟩
  apply Bool.eq_false_iff.mpr
  intro hfence
  have hpre : "```".toList <+: text.dropWhile Text.isBlank := List.isPrefixOf_iff_prefix.mp hfence
  have hmem := (List.dropWhile_sublist Text.isBlank).subset (hpre.subset List.mem_cons_self)
  exact h.notMem (by decide) hmem

theorem isPlainOrMarker (h : IsPlainText text) : IsPlainOrMarker text :=
  Or.inr (h.notMem (by decide))

/-- A blank in front makes no difference to what a plain text is. -/
theorem of_cons {b : Char} (h : IsPlainText (b :: text)) (hb : Text.isBlank b = true) :
    IsPlainText text := by
  refine ⟨fun c hc => h.chars c (List.mem_cons_of_mem b hc), ?_⟩
  have hitem := h.not_item
  unfold isListItem at hitem ⊢
  rwa [List.dropWhile_cons_of_pos hb] at hitem

end IsPlainText

/-! ### The texts of marked lines -/

/-- A line that counts, with its words: after marking it holds a prose text with these words. -/
def Counts (line : Text) (ws : List Text) : Prop :=
  ∃ t, lineText? (Source.markLine line) = some t ∧ IsProse t ∧ IsPlainOrMarker t ∧ lineWords t = ws

/-- A star with only spaces behind it counts, and has no words. -/
theorem counts_of_spaces {lead sp : Text} (hlead : ∀ c ∈ lead, Text.isBlank c = true)
    (hsp : ∀ c ∈ sp, c = ' ') : Counts (lead ++ '*' :: sp) [] := by
  refine ⟨"<p>".toList, ?_, ⟨by decide, by decide⟩, Or.inl rfl, rfl⟩
  rw [Source.markLine_append_star lead hsp]
  exact lineText?_gutter hlead (by decide) "<p>".toList

/-- A star with a blank and a plain text behind it counts, with the words of the text. -/
theorem counts_of_text {lead text : Text} {b : Char} (hlead : ∀ c ∈ lead, Text.isBlank c = true)
    (hb : Text.isBlank b = true) (htext : IsPlainText text) :
    Counts (lead ++ '*' :: b :: text) (Text.words text) := by
  by_cases hsp : ∀ c ∈ b :: text, c = ' '
  · have hwords : Text.words text = [] := by
      apply Text.words_eq_nil
      intro c hc
      rw [hsp c (List.mem_cons_of_mem b hc)]
      decide
    rw [hwords]
    exact counts_of_spaces hlead hsp
  · have hstar : '*' ∉ b :: text := by
      intro hmem
      rcases List.mem_cons.mp hmem with heq | hmem
      · exact absurd hb (by rw [← heq]; decide)
      · exact htext.notMem (by decide) hmem
    have hother : ∃ d ∈ b :: text, d ≠ ' ' := by
      by_contra hnone
      exact hsp fun c hc => by_contra fun hne => hnone ⟨c, hc, hne⟩
    refine ⟨text, ?_, htext.isProse, htext.isPlainOrMarker,
      lineWords_of_notMem (htext.notMem (by decide))⟩
    have hkept : Source.markLine (lead ++ '*' :: b :: text) = lead ++ '*' :: b :: text := by
      have := Source.markLine_append_of_notMem (lead ++ ['*']) hstar hother
      simpa using this
    rw [hkept]
    exact lineText?_gutter hlead hb text

/-- A comment line gives its words to the description. -/
theorem GutterLine.counts {line text : Text} (h : GutterLine line text) :
    Counts line (Text.words text) := by
  cases h with
  | bare hlead => exact counts_of_spaces hlead (by simp)
  | spaced hlead hb htext => exact counts_of_text hlead hb htext

/-- The words that a list of lines gives to a description: after marking, the lines that count hold
prose texts with these words. -/
def CountAll (ls : List Text) (ws : List Text) : Prop :=
  ∃ ts, (ls.map Source.markLine).filterMap lineText? = ts ∧
    (∀ t ∈ ts, IsProse t ∧ IsPlainOrMarker t) ∧ ts.flatMap lineWords = ws

theorem countAll_nil : CountAll [] [] := ⟨[], rfl, by simp, rfl⟩

/-- The words of a line stand before those of the lines behind it. -/
theorem CountAll.cons {l : Text} {ls ws ws' : List Text} (hs : CountAll ls ws') (h : Counts l ws) :
    CountAll (l :: ls) (ws ++ ws') := by
  obtain ⟨t, ht, hprose, hplain, htw⟩ := h
  obtain ⟨ts, hts, hkind, hwords⟩ := hs
  refine ⟨t :: ts, ?_, ?_, ?_⟩
  · rw [List.map_cons, List.filterMap_cons_some ht, hts]
  · intro t' ht'
    rcases List.mem_cons.mp ht' with rfl | ht'
    · exact ⟨hprose, hplain⟩
    · exact hkind t' ht'
  · rw [List.flatMap_cons, htw, hwords]

/-- A line without a gutter does not count. -/
theorem CountAll.skip {l : Text} {ls ws : List Text} (hs : CountAll ls ws)
    (h : lineText? (Source.markLine l) = none) : CountAll (l :: ls) ws := by
  obtain ⟨ts, hts, hkind, hwords⟩ := hs
  refine ⟨ts, ?_, hkind, hwords⟩
  rw [List.map_cons, List.filterMap_cons_none h, hts]

theorem lineText?_markLine_of_notMem {l : Text} (h : '*' ∉ l) :
    lineText? (Source.markLine l) = none := by
  rw [Source.markLine_of_notMem h, lineText?_of_notMem h]

/-- All gutter lines count. -/
theorem GutterLines.countAll {ls texts : List Text} (h : GutterLines ls texts) :
    CountAll ls (texts.flatMap Text.words) := by
  induction h with
  | nil => exact countAll_nil
  | last hl =>
    apply countAll_nil.skip
    apply lineText?_markLine_of_notMem
    intro hmem
    exact absurd (hl '*' hmem) (by decide)
  | cons hline _ ih =>
    rw [List.flatMap_cons]
    exact ih.cons hline.counts

/-! ### The whole body -/

namespace PlainBody

variable {body opening : Text} {texts : List Text}

/-- The lines of a plain body hold only blanks, stars and plain texts. -/
theorem notMem_lines {c : Char} (hc : c ∈ "@<`/".toList) {ls : List Text}
    (h : GutterLines ls texts) {l : Text} (hl : l ∈ ls) : c ∉ l := by
  have hchars : ∀ lead : Text, (∀ d ∈ lead, Text.isBlank d = true) → c ∉ lead := by
    intro lead hlead hmem
    have hblank := hlead c hmem
    simp only [Text.isBlank, Bool.or_eq_true, beq_iff_eq] at hblank
    rcases hblank with rfl | rfl
    · exact absurd hc (by decide)
    · exact absurd hc (by decide)
  have hstar : c ≠ '*' := by
    rintro rfl
    exact absurd hc (by decide)
  induction h with
  | nil => cases hl
  | last hblank =>
    obtain rfl := List.mem_singleton.mp hl
    exact hchars _ hblank
  | cons hline _ ih =>
    rcases List.mem_cons.mp hl with rfl | hl
    · cases hline with
      | bare hlead => simp [hchars _ hlead, hstar]
      | spaced hlead hb htext =>
        intro hmem
        rcases List.mem_append.mp hmem with hmem | hmem
        · exact hchars _ hlead hmem
        · rcases List.mem_cons.mp hmem with heq | hmem
          · exact hstar heq
          · rcases List.mem_cons.mp hmem with rfl | hmem
            · exact hchars [c] (by simpa using hb) List.mem_cons_self
            · exact htext.notMem (List.mem_cons_of_mem '*' hc) hmem
    · exact ih hl

/-- No special character is in a plain body, apart from the stars of its gutters. -/
theorem notMem_body (h : PlainBody body opening texts) {c : Char} (hc : c ∈ "@<`/".toList) :
    c ∉ body := by
  have hnl : c ≠ '\n' := by
    rintro rfl
    exact absurd hc (by decide)
  obtain ⟨rest, hlines, hrest⟩ := h.gutters
  intro hmem
  obtain ⟨l, hl, hin⟩ := Text.exists_mem_lines hnl hmem
  rw [hlines] at hl
  rcases List.mem_cons.mp hl with rfl | hl
  · exact h.opening_plain.notMem (List.mem_cons_of_mem '*' hc) hin
  · exact notMem_lines hc hrest hl hin

/-- There is no tag line in the section of a plain body, so all of it is description. -/
theorem splitTags_docOf (h : PlainBody body opening texts) :
    splitTags (Source.docOf body) = (Source.docOf body, []) := by
  have hat : '@' ∉ Source.starred body := by
    have hbody : '@' ∉ body := h.notMem_body (by decide)
    rw [Source.starred]
    split
    · exact hbody
    · simpa using hbody
  apply splitTags_eq_of_forall
  intro l hl
  rw [Source.docOf_eq_markBlankLines, Source.lines_markBlankLines] at hl
  obtain ⟨l', hl', rfl⟩ := List.mem_map.mp hl
  cases hgutter : tagGutter? (Source.markLine l') with
  | none => rfl
  | some n =>
    obtain ⟨lead, gap, q, -, -, heq, -⟩ := tagGutter?_eq_some hgutter
    have hmem : '@' ∈ Source.markLine l' := by rw [heq]; simp
    have hl'' : '@' ∈ l' := Source.mem_of_mem_markLine (by decide) hmem
    exact absurd (Text.mem_of_mem_lines hl' hl'') hat

/-- The lines that count in the section of a plain body: all gutter lines, and the opening line when it
is kept. -/
theorem countAll_starred (h : PlainBody body opening texts) :
    CountAll (Text.lines (Source.starred body))
      ((if OpeningKept body opening then Text.words opening else []) ++
        texts.flatMap Text.words) := by
  obtain ⟨rest, hlines, hrest⟩ := h.gutters
  have hopen : '*' ∉ opening := h.opening_plain.notMem (by decide)
  have hlead : ∀ c ∈ ([] : Text), Text.isBlank c = true := by simp
  by_cases hstar : '*' ∈ body
  · -- The opening line has no gutter of its own, and nothing is put in front of it.
    have hlost : ¬ OpeningKept body opening := fun hkept => hkept.1 hstar
    rw [Source.starred, if_pos hstar, if_neg hlost, hlines]
    exact hrest.countAll.skip (lineText?_markLine_of_notMem hopen)
  · rw [Source.starred, if_neg hstar, Text.lines_cons (by decide), hlines, List.modifyHead_cons]
    cases opening with
    | nil =>
      -- A bare star counts, and has no words.
      have hbare : Counts ([] ++ '*' :: []) [] := counts_of_spaces hlead (by simp)
      simpa using hrest.countAll.cons hbare
    | cons b r =>
      by_cases hb : Text.isBlank b = true
      · have htext : Counts ([] ++ '*' :: b :: r) (Text.words r) :=
          counts_of_text hlead hb (h.opening_plain.of_cons hb)
        rw [if_pos ⟨hstar, hb⟩, Text.words_cons_space (Text.isSpace_of_isBlank hb)]
        exact hrest.countAll.cons htext
      · have hlost : ¬ OpeningKept body (b :: r) := fun hkept => hb hkept.2
        have hbs : b ≠ ' ' := by
          rintro rfl
          exact hb (by decide)
        rw [if_neg hlost]
        apply hrest.countAll.skip
        rw [show '*' :: b :: r = ['*'] ++ b :: r from rfl,
          Source.markLine_append_of_notMem ['*'] hopen ⟨b, List.mem_cons_self, hbs⟩]
        have hdrop : ('*' :: b :: r).dropWhile Text.isBlank = '*' :: b :: r :=
          List.dropWhile_cons_of_neg (by decide)
        simp [lineText?, hdrop, hb]

/-- The words of the description of a plain body. -/
theorem words_description (h : PlainBody body opening texts) :
    Text.words (parse (Source.docOf body)).1 =
      (if OpeningKept body opening then Text.words opening else []) ++
        texts.flatMap Text.words := by
  obtain ⟨ts, hts, hkind, hwords⟩ := h.countAll_starred
  have hlines : lineTexts (Source.docOf body) = ts := by
    rw [lineTexts, Source.docOf_eq_markBlankLines, Source.lines_markBlankLines, hts]
  rw [parse_of_splitTags h.splitTags_docOf, words_describe_of_plain, hlines, hwords]
  · intro l hl
    exact (hkind l (hlines ▸ hl)).1
  · intro l hl
    exact (hkind l (hlines ▸ hl)).2

end PlainBody

/-- **Which words of a plain comment reach its description.** A plain comment before a declaration gives
one section. The words of its description are those of the texts behind the gutters, after those of the
opening line if that line is kept. So no word is lost exactly when the opening line is kept or has no
words. -/
theorem description_words_iff {body opening : Text} {texts : List Text}
    (h : PlainBody body opening texts) :
    ∃ doc, Source.sections ("/**".toList ++ body ++ "*/".toList ++ " int x;".toList) =
        [⟨"int x".toList, doc⟩] ∧
      Text.words (parse doc).1 =
        (if OpeningKept body opening then Text.words opening else []) ++
          texts.flatMap Text.words ∧
      (Text.words (parse doc).1 = Text.words opening ++ texts.flatMap Text.words ↔
        OpeningKept body opening ∨ Text.words opening = []) := by
  have hsource : "/**".toList ++ body ++ "*/".toList ++ " int x;".toList =
      Source.singleComment body " int x".toList := by
    simp [Source.singleComment]
  have hclose : ¬ "*/".toList <:+: body := fun hin =>
    h.notMem_body (by decide) (hin.subset (show '/' ∈ "*/".toList by decide))
  have hrun : ∀ c ∈ " int x".toList, Source.isRunChar c = true := List.all_eq_true.mp rfl
  have hsections := Source.sections_singleComment h.no_return (by decide) hclose (by decide) hrun
    (show ¬ Source.IsImportLine (Text.strip " int x".toList) by decide)
  refine ⟨Source.docOf body, by rw [hsource, hsections]; rfl, h.words_description, ?_⟩
  rw [h.words_description, List.append_cancel_right_eq]
  by_cases hkept : OpeningKept body opening
  · rw [if_pos hkept]
    exact ⟨fun _ => Or.inl hkept, fun _ => rfl⟩
  · rw [if_neg hkept]
    constructor
    · intro hlost
      exact Or.inr hlost.symm
    · rintro (hk | hnone)
      · exact absurd hk hkept
      · exact hnone.symm

/-- A comment with text on its opening line and behind a gutter, with an empty line in between. -/
theorem plainBody_summary :
    PlainBody " Adds two\n *\n * numbers.\n ".toList " Adds two".toList
      [[], "numbers.".toList] := by
  have hlead : ∀ c ∈ [' '], Text.isBlank c = true := List.all_eq_true.mp rfl
  have hopening : IsPlainText " Adds two".toList := ⟨by simp, by decide⟩
  have htext : IsPlainText "numbers.".toList := ⟨by simp, by decide⟩
  refine ⟨by decide, hopening, [" *".toList, " * numbers.".toList, " ".toList], by decide, ?_⟩
  exact .cons (.bare hlead) (.cons (.spaced hlead (by decide) htext) (.last hlead))

/-- The text of that opening line is lost. -/
theorem description_words_summary :
    PlainBody " Adds two\n *\n * numbers.\n ".toList " Adds two".toList
      [[], "numbers.".toList] ∧
    ∃ doc, Source.sections "/** Adds two\n *\n * numbers.\n */ int x;".toList =
        [⟨"int x".toList, doc⟩] ∧
      Text.words (parse doc).1 = ["numbers.".toList] ∧
      Text.words (parse doc).1 ≠
        Text.words " Adds two".toList ++ [[], "numbers.".toList].flatMap Text.words := by
  refine ⟨plainBody_summary, ?_⟩
  obtain ⟨doc, hsections, hwords, hall⟩ := description_words_iff plainBody_summary
  refine ⟨doc, hsections, hwords, ?_⟩
  intro hkept
  exact absurd (hall.mp hkept) (by decide)

end DocMark.Comment
