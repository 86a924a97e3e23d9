import DocMark.Proofs.Comment.Gutter

/-!
Comments that hold one block of fenced code.

A line of code is written as it stands, unless it ends in a star, which gets a marker behind it, or is a
marker of a blank line itself, which becomes empty (`written`). If no line begins with an at sign, this
is all that happens: `parse_fenced` and `parse_example` give what a comment with a fenced block, in its
description or in a tag, is parsed to.
-/

namespace DocMark.Comment

/-- The line that opens and closes a block of code. -/
def fence : Text := "```".toList

def fenced (code : List Text) : List Text := fence :: code ++ [fence]

/-- A line that can stand in a comment: it has no line breaks, does not end the comment, and has no
white space at its end. -/
structure IsCommentLine (line : Text) : Prop where
  no_newline : '\n' ∉ line
  no_return : '\r' ∉ line
  no_close : ¬ "*/".toList <:+: line
  trimmed : line.getLast?.any Text.isSpace = false

/-- A line of code: it can stand in a comment and is no fence. -/
structure IsCode (line : Text) : Prop extends IsCommentLine line where
  not_fence : isFence line = false

/-- Without a slash a line does not end the comment. -/
theorem isCommentLine_of_slash {l : Text} (hslash : '/' ∉ l) (hn : '\n' ∉ l) (hr : '\r' ∉ l)
    (ht : l.getLast?.any Text.isSpace = false) : IsCommentLine l := by
  refine ⟨hn, hr, ?_, ht⟩
  intro hin
  exact hslash (hin.subset (List.mem_cons_of_mem '*' List.mem_cons_self))

def written (line : Text) : Text :=
  if line.getLast? = some '*' then line ++ " <p>".toList
  else if isBlankMarker line then []
  else line

/-- A line of code is written as it stands unless it ends in a star or marks a blank line. -/
theorem written_eq_self_iff {l : Text} :
    written l = l ↔ l.getLast? ≠ some '*' ∧ isBlankMarker l = false := by
  unfold written
  split
  · rename_i hstar
    simp [hstar]
  · rename_i hstar
    split
    · rename_i hmarker
      constructor
      · intro hnil
        rw [← hnil] at hmarker
        exact absurd hmarker (by decide)
      · intro hkept
        exact absurd hmarker (by simp [hkept.2])
    · rename_i hmarker
      exact ⟨fun _ => ⟨hstar, by simpa using hmarker⟩, fun _ => rfl⟩

/-! ### Lines of code behind a gutter -/

section Line

variable {l : Text}

/-- The three things that marking makes of a line. -/
theorem marked_cases (l : Text) : (l = [] ∧ marked l = "<p>".toList) ∨
    (l.getLast? = some '*' ∧ marked l = l ++ " <p>".toList) ∨
    (l ≠ [] ∧ l.getLast? ≠ some '*' ∧ marked l = l) := by
  unfold marked
  split
  · exact Or.inl ⟨‹_›, rfl⟩
  · split
    · exact Or.inr (Or.inl ⟨‹_›, rfl⟩)
    · exact Or.inr (Or.inr ⟨‹_›, ‹_›, rfl⟩)

theorem trimmed_marked (h : l.getLast?.any Text.isSpace = false) :
    (marked l).getLast?.any Text.isSpace = false := by
  rcases marked_cases l with ⟨-, hl⟩ | ⟨-, hl⟩ | ⟨-, -, hl⟩
  · rw [hl]
    decide
  · rw [hl, List.getLast?_append_of_ne_nil _ (by decide)]
    decide
  · rwa [hl]

/-- The blanks before a line that ends in a star are the same, whatever is put behind it. -/
theorem dropWhile_append_of_star (hstar : l.getLast? = some '*') (r : Text) :
    ∃ x, l.dropWhile Text.isBlank = x ++ ['*'] ∧
      (l ++ r).dropWhile Text.isBlank = x ++ '*' :: r := by
  obtain ⟨y, rfl⟩ := List.getLast?_eq_some_iff.mp hstar
  have hhead : ∀ e c, ('*' :: e : Text).head? = some c → Text.isBlank c = false := by
    rintro e c ⟨⟩
    decide
  refine ⟨y.dropWhile Text.isBlank, dropWhile_append_of_head (hhead []), ?_⟩
  rw [List.append_assoc, List.singleton_append]
  exact dropWhile_append_of_head (hhead r)

/-- Marking a line makes no fence of it. -/
theorem isFence_marked (h : isFence l = false) : isFence (marked l) = false := by
  rcases marked_cases l with ⟨-, hl⟩ | ⟨hstar, hl⟩ | ⟨-, -, hl⟩
  · rw [hl]
    decide
  · obtain ⟨x, hx, hxr⟩ := dropWhile_append_of_star hstar " <p>".toList
    rw [isFence, hx] at h
    rw [hl, isFence, hxr]
    -- Three backquotes do not reach as far as the star.
    rcases x with _ | ⟨a, _ | ⟨b, _ | ⟨c, x⟩⟩⟩
    · rfl
    · simp [Text.startsWith, List.isPrefixOf]
    · simp [Text.startsWith, List.isPrefixOf]
    · simpa [Text.startsWith, List.isPrefixOf] using h
  · rwa [hl]

/-- Marking a line keeps its beginning, so no tag line comes or goes. -/
theorem beginsWithAt_marked (l : Text) : beginsWithAt (marked l) = beginsWithAt l := by
  rcases marked_cases l with ⟨rfl, hl⟩ | ⟨hstar, hl⟩ | ⟨-, -, hl⟩
  · rw [hl]
    decide
  · obtain ⟨x, hx, hxr⟩ := dropWhile_append_of_star hstar " <p>".toList
    rw [hl, beginsWithAt, beginsWithAt, hx, hxr]
    cases x with
    | nil => rfl
    | cons c x => rfl
  · rw [hl]

/-- A star with a marker behind it is no bare marker. -/
theorem isBlankMarker_star (hstar : l.getLast? = some '*') :
    isBlankMarker (l ++ " <p>".toList) = false := by
  have hmem : '*' ∈ Text.strip (l ++ " <p>".toList) :=
    Text.mem_strip (by decide) (List.mem_append_left _ (List.mem_of_getLast? hstar))
  apply Bool.eq_false_iff.mpr
  intro hmarker
  rcases Bool.or_eq_true_iff.mp hmarker with heq | heq
  · rw [eq_of_beq heq] at hmem
    exact absurd hmem (by decide)
  · rw [eq_of_beq heq] at hmem
    exact absurd hmem (by decide)

theorem codeOf_space (l : Text) : codeOf (' ' :: l) = if isBlankMarker l then [] else l := rfl

/-- Code in a tag's value. -/
theorem codeOf_marked (l : Text) : codeOf (' ' :: marked l) = written l := by
  rw [codeOf_space]
  rcases marked_cases l with ⟨rfl, hl⟩ | ⟨hstar, hl⟩ | ⟨-, hstar, hl⟩
  · rfl
  · rw [hl, isBlankMarker_star hstar, written, if_pos hstar]
    rfl
  · rw [hl, written, if_neg hstar]

/-- Code in a description. -/
theorem codeLine_marked (h : l.getLast?.any Text.isSpace = false) :
    codeLine (marked l) = written l := by
  have hstrip : Text.stripEnd (marked l) = marked l := by
    apply Text.trimEnd_eq_self
    intro c hc
    simpa [hc] using trimmed_marked h
  rw [← codeOf_marked, codeOf_space, codeLine, hstrip]

end Line

/-! ### Whole comments -/

section Comments

variable {code : List Text}

theorem forall_mem_fenced {P : Text → Prop} (hfence : P fence) (h : ∀ c ∈ code, P c) :
    ∀ l ∈ fenced code, P l := by
  intro l hl
  rcases List.mem_append.mp hl with hl | hl
  · rcases List.mem_cons.mp hl with rfl | hl
    · exact hfence
    · exact h l hl
  · obtain rfl := List.mem_singleton.mp hl
    exact hfence

theorem map_fenced (f : Text → Text) (code : List Text) :
    (fenced code).map f = f fence :: code.map f ++ [f fence] := by
  simp [fenced]

theorem map_marked_fenced (code : List Text) :
    (fenced code).map marked = fenced (code.map marked) := map_fenced marked code

/-- What holds of a fence and of every marked line of code holds of every line of the marked block. -/
theorem forall_mem_marked {P : Text → Prop} (hfence : P fence) (h : ∀ c ∈ code, P (marked c)) :
    ∀ l ∈ fenced (code.map marked), P l := by
  refine forall_mem_fenced hfence fun l hl => ?_
  obtain ⟨c, hc, rfl⟩ := List.mem_map.mp hl
  exact h c hc

theorem beginsWithAt_block (hat : ∀ c ∈ code, beginsWithAt c = false) :
    ∀ l ∈ fenced (code.map marked), beginsWithAt l = false :=
  forall_mem_marked (by decide) fun c hc => by rw [beginsWithAt_marked, hat c hc]

section Code

variable (h : ∀ c ∈ code, IsCode c)
include h

theorem newline_notMem_marked : ∀ l ∈ fenced (code.map marked), '\n' ∉ l :=
  forall_mem_marked (by decide) fun c hc => notMem_marked (by decide) (h c hc).no_newline

theorem return_notMem_marked : ∀ l ∈ fenced (code.map marked), '\r' ∉ l :=
  forall_mem_marked (by decide) fun c hc => notMem_marked (by decide) (h c hc).no_return

theorem isFence_map_marked : ∀ l ∈ code.map marked, isFence l = false := by
  intro l hl
  obtain ⟨c, hc, rfl⟩ := List.mem_map.mp hl
  exact isFence_marked (h c hc).not_fence

/-- **A description of fenced code.** -/
theorem parse_fenced (hat : ∀ c ∈ code, beginsWithAt c = false) :
    parse (Source.docOf (gutterBody (fenced code))) =
      (Text.joinWith ['\n'] (fenced (code.map written)), []) := by
  have hdoc : Source.docOf (gutterBody (fenced code)) = gutterBody (fenced (code.map marked)) := by
    rw [docOf_gutterBody (by simp [fenced]), map_marked_fenced]
    · exact forall_mem_fenced (by decide) fun c hc => (h c hc).no_newline
    · exact forall_mem_fenced (by decide) fun c hc => (h c hc).trimmed
  have hlines := newline_notMem_marked h
  have htexts : lineTexts (gutterBody (fenced (code.map marked))) =
      fence :: code.map marked ++ [fence] := lineTexts_gutterBody hlines
  have hcode : (code.map marked).map codeLine = code.map written := by
    rw [List.map_map]
    exact List.map_congr_left fun c hc => codeLine_marked (h c hc).trimmed
  have hsplit := splitTags_eq_of_forall (tagGutter?_of_mem_lines hlines (beginsWithAt_block hat))
  rw [hdoc, parse_of_splitTags hsplit,
    describe_fenced htexts (by decide) (by decide) (isFence_map_marked h), hcode]
  rfl

/-- The value of a tag that a fenced block follows. -/
theorem valueOf_fenced :
    valueOf (gutterBody (fenced (code.map marked))) =
      '\n' :: Text.joinWith ['\n'] ((fenced (code.map written)).map indented) := by
  have hcut : Text.cut continuation? (Text.stripEnd (gutterBody (fenced (code.map marked)))) =
      [] :: (' ' :: fence) :: (code.map marked).map (' ' :: ·) ++ [' ' :: fence] := by
    rw [fenced, cut_continuation_gutterBody (by decide) (by decide) fun l hl =>
      ⟨newline_notMem_marked h l hl, return_notMem_marked h l hl⟩]
    simp
  have hfences : ∀ l ∈ (code.map marked).map (' ' :: ·), isFence l = false := by
    intro l hl
    obtain ⟨k, hk, rfl⟩ := List.mem_map.mp hl
    exact isFence_map_marked h k hk
  have hcode : ((code.map marked).map (' ' :: ·)).map (fun l => indented (codeOf l)) =
      (code.map written).map indented := by
    rw [List.map_map, List.map_map, List.map_map]
    exact List.map_congr_left fun c _ => congrArg indented (codeOf_marked c)
  rw [valueOf, hcut, List.cons_append,
    LineWrap.value_feedAll_fenced (by decide) (by decide) hfences (by decide), hcode, map_fenced]
  rfl

/-- **A tag with fenced code.** -/
theorem parse_example (hat : ∀ c ∈ code, beginsWithAt c = false) :
    parse (Source.docOf (gutterBody ("@example".toList :: fenced code))) =
      ([], [⟨"example".toList,
        '\n' :: Text.joinWith ['\n'] ((fenced (code.map written)).map indented)⟩]) := by
  have hdoc : Source.docOf (gutterBody ("@example".toList :: fenced code)) =
      gutterBody (('@' :: "example".toList) :: fenced (code.map marked)) := by
    rw [docOf_gutterBody (by simp), List.map_cons, map_marked_fenced]
    · rfl
    · exact List.forall_mem_cons.mpr
        ⟨by decide, forall_mem_fenced (by decide) fun c hc => (h c hc).no_newline⟩
    · exact List.forall_mem_cons.mpr
        ⟨by decide, forall_mem_fenced (by decide) fun c hc => (h c hc).trimmed⟩
  have htag : parseTag? ('@' :: ("example".toList ++ gutterBody (fenced (code.map marked)))) =
      some ⟨"example".toList, valueOf (gutterBody (fenced (code.map marked)))⟩ := rfl
  have hsplit := splitTags_gutterBody_tag (show '\n' ∉ "example".toList by decide)
    (newline_notMem_marked h) (beginsWithAt_block hat)
  rw [hdoc, parse_of_splitTags hsplit, parseTags, List.filterMap_cons_some htag, valueOf_fenced h]
  rfl

end Code

end Comments

end DocMark.Comment
