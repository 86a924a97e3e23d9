import DocMark.Proofs.Comment.TagLines
import DocMark.Proofs.Text.Trim

/-!
Comment bodies are parsed block by block.

A line feed in front of a tag line is a seam: the last piece before it gains the line feed, and the
pieces behind it are those of the tag line's own text (`cutTagsFrom_seam`). A line feed at the end
changes neither a description (`describe_append_newline`) nor a tag (`parseTag?_append_newline`), so
parsing works on the two sides apart (`parse_append_tagLine`).
-/

namespace DocMark.Comment

open Text

/-- A text whose first line is a tag line: blanks, a star, blanks and an at sign. -/
def OpensWithTag (t : Text) : Prop :=
  ∃ lead gap q : Text, (∀ c ∈ lead, isBlank c = true) ∧ (∀ c ∈ gap, isBlank c = true) ∧
    t = lead ++ '*' :: (gap ++ '@' :: q)

theorem OpensWithTag.exists_tagGutter {t : Text} (h : OpensWithTag t) :
    ∃ n, tagGutter? t = some n := by
  obtain ⟨lead, gap, q, hlead, hgap, rfl⟩ := h
  have hstar : (lead ++ '*' :: (gap ++ '@' :: q)).dropWhile isBlank = '*' :: (gap ++ '@' :: q) := by
    rw [List.dropWhile_append_of_pos hlead, List.dropWhile_cons_of_neg (by decide)]
  have hat : (gap ++ '@' :: q).dropWhile isBlank = '@' :: q := by
    rw [List.dropWhile_append_of_pos hgap, List.dropWhile_cons_of_neg (by decide)]
  simp [tagGutter?, hstar, hat]

/-! ### The seam -/

/-- The pieces of a body with a tag line behind a line feed. -/
theorem cutTagsFrom_seam {t : Text} {chunks : List Text} (ht : cutTagsFrom true 0 t = [] :: chunks)
    (d : Text) : ∃ before last, cutTagsFrom true 0 d = before ++ [last] ∧
      cutTagsFrom true 0 (d ++ '\n' :: t) = before ++ (last ++ ['\n']) :: chunks := by
  induction d using lines_induction with
  | last l hl =>
    cases htag : tagGutter? l with
    | none =>
      refine ⟨[], l, cutTagsFrom_lastLine hl htag, ?_⟩
      rw [cutTagsFrom_line hl htag, ht]
      rfl
    | some n =>
      have hdrop : '\n' ∉ l.drop n := fun hmem => hl (List.mem_of_mem_drop hmem)
      refine ⟨[[]], l.drop n, ?_, ?_⟩
      · rw [cutTagsFrom_true_of_tag htag, cutTagsFrom_false_lastLine hdrop]
        rfl
      · rw [cutTagsFrom_tagLine hl htag, ht]
        rfl
  | line l r hl ih =>
    obtain ⟨before, last, hr, hrt⟩ := ih
    rw [List.append_assoc, List.cons_append]
    -- The line goes to the first piece of what follows, which may be the one before the seam.
    have hfirst : ∀ front : Text, ∃ before' last',
        (before ++ [last]).modifyHead (front ++ ·) = before' ++ [last'] ∧
          (before ++ (last ++ ['\n']) :: chunks).modifyHead (front ++ ·) =
            before' ++ (last' ++ ['\n']) :: chunks := by
      intro front
      cases before with
      | nil => exact ⟨[], front ++ last, rfl, by simp⟩
      | cons p ps => exact ⟨(front ++ p) :: ps, last, rfl, rfl⟩
    cases htag : tagGutter? l with
    | none =>
      rw [cutTagsFrom_line hl htag, cutTagsFrom_line hl htag, hr, hrt]
      simpa using hfirst (l ++ ['\n'])
    | some n =>
      obtain ⟨before', last', hd, hdt⟩ := hfirst (l.drop n ++ ['\n'])
      refine ⟨[] :: before', last', ?_, ?_⟩
      · rw [cutTagsFrom_tagLine hl htag, hr, List.cons_append, ← hd]
        simp
      · rw [cutTagsFrom_tagLine hl htag, hrt, List.cons_append, ← hdt]
        simp

/-! ### A line feed at the end -/

theorem describe_append_newline (raw : Text) : describe (raw ++ ['\n']) = describe raw := by
  have hnone : (lines []).filterMap lineText? = [] := rfl
  rw [describe, describe, lineTexts, lines_append_newline, List.filterMap_append, hnone,
    List.append_nil]
  rfl

theorem valueOf_append_newline (rest : Text) : valueOf (rest ++ ['\n']) = valueOf rest := by
  have hspace : ∀ c ∈ ['\n'], isSpace c = true := List.all_eq_true.mp rfl
  rw [valueOf, valueOf, stripEnd, trimEnd_append_of_all rest hspace]
  rfl

/-- A line feed at the end of a chunk changes nothing about its tag. -/
theorem parseTag?_append_newline (chunk : Text) :
    parseTag? (chunk ++ ['\n']) = parseTag? chunk := by
  have hblank : ∀ c, ['\n'].head? = some c → isBlank c = false := by
    rintro c ⟨⟩
    rfl
  have hletter : ∀ c, ['\n'].head? = some c → isLetter c = false := by
    rintro c ⟨⟩
    rfl
  unfold parseTag?
  rw [dropWhile_append_of_head hblank]
  cases chunk.dropWhile isBlank with
  | nil => rfl
  | cons a r =>
    by_cases hat : a = '@'
    · subst hat
      have hkey : (r ++ ['\n']).takeWhile isLetter = r.takeWhile isLetter := by
        rw [List.takeWhile_append]
        split
        · rename_i hall
          rw [List.takeWhile_cons_of_neg (by decide), List.append_nil]
          exact ((List.takeWhile_prefix isLetter).eq_of_length hall).symm
        · rfl
      simp only [List.cons_append, hkey, dropWhile_append_of_head hletter, valueOf_append_newline]
    · simp [hat]

/-! ### Parsing -/

theorem parseTags_append (cs ds : List Text) : parseTags (cs ++ ds) = parseTags cs ++ parseTags ds :=
  List.filterMap_append

theorem parseTags_append_newline (chunk : Text) :
    parseTags [chunk ++ ['\n']] = parseTags [chunk] := by
  rw [parseTags, parseTags, List.filterMap_cons, List.filterMap_cons, parseTag?_append_newline]

/-- **Parsing is compositional in the tag blocks of a comment.** What stands before a tag line has the
description and the tags it has on its own, and the tags from that line on follow. -/
theorem parse_append_tagLine (d : Text) {t : Text} (ht : OpensWithTag t) :
    parse (d ++ '\n' :: t) = ((parse d).1, (parse d).2 ++ (parse t).2) := by
  obtain ⟨n, hn⟩ := ht.exists_tagGutter
  have hcut := cutTagsFrom_true_of_tag hn
  obtain ⟨before, last, hd, hdt⟩ := cutTagsFrom_seam hcut d
  rw [parse_of_cutTags hcut]
  cases before with
  | nil =>
    -- No tag before the seam: the last piece is the description.
    rw [parse_of_cutTags hd, parse_of_cutTags hdt, describe_append_newline]
    rfl
  | cons raw chunks =>
    have hfront : cutTagsFrom true 0 d = raw :: (chunks ++ [last]) := hd
    have hwhole : cutTagsFrom true 0 (d ++ '\n' :: t) =
        raw :: (chunks ++ ([last ++ ['\n']] ++ cutTagsFrom false 0 (t.drop n))) := hdt
    rw [parse_of_cutTags hfront, parse_of_cutTags hwhole, parseTags_append, parseTags_append,
      parseTags_append, parseTags_append_newline, List.append_assoc]

/-- A comment with a description and a parameter, and a result behind them. -/
theorem parse_append_tagLine_return :
    OpensWithTag " * @return the sum\n ".toList ∧
    parse (" Adds.\n * Two numbers.\n * @param x\n *   the first".toList ++
        '\n' :: " * @return the sum\n ".toList) =
      ("Two numbers.".toList,
        [⟨"param".toList, "x the first".toList⟩, ⟨"return".toList, "the sum".toList⟩]) := by
  have hblank : ∀ c ∈ " ".toList, isBlank c = true := List.all_eq_true.mp rfl
  have hopens : OpensWithTag " * @return the sum\n ".toList :=
    ⟨" ".toList, " ".toList, "return the sum\n ".toList, hblank, hblank, rfl⟩
  refine ⟨hopens, ?_⟩
  rw [parse_append_tagLine _ hopens]
  decide

end DocMark.Comment
