import DocMark.Comment.Description
import DocMark.Proofs.Comment.FencedBlock
import DocMark.Proofs.Comment.TagLines
import DocMark.Proofs.Source.Extraction

/-!
Comment bodies with a gutter.

`gutterBody` lays lines out as the body of a comment, each behind a blank, a star and a blank. Every
stage reads these lines back: blank lines are marked line by line (`docOf_gutterBody`), the lines of a
description are the texts behind the gutters (`lineTexts_gutterBody`), a tag begins where such a text
begins with an at sign (`tagGutter?_gutter`), and the lines of a tag's value are these texts again
(`cut_continuation_gutterBody`).
-/

namespace DocMark.Comment

/-! ### Lines behind a gutter -/

/-- What stands behind a gutter is the text of the line. -/
theorem lineText?_gutter {lead : Text} (hlead : ∀ c ∈ lead, Text.isBlank c = true) {b : Char}
    (hb : Text.isBlank b = true) (r : Text) : lineText? (lead ++ '*' :: b :: r) = some r := by
  have hdrop : (lead ++ '*' :: b :: r).dropWhile Text.isBlank = '*' :: b :: r := by
    rw [List.dropWhile_append_of_pos hlead, List.dropWhile_cons_of_neg (by decide)]
  simp [lineText?, hdrop, hb]

theorem lineText?_of_notMem {l : Text} (h : '*' ∉ l) : lineText? l = none := by
  unfold lineText?
  split
  · rename_i b r hdrop
    have hmem : '*' ∈ l.dropWhile Text.isBlank := by rw [hdrop]; exact List.mem_cons_self
    exact absurd ((List.dropWhile_sublist Text.isBlank).subset hmem) h
  · rfl

def beginsWithAt (line : Text) : Bool := (line.dropWhile Text.isBlank).head? == some '@'

/-- A tag line is a gutter and a text that begins with an at sign. -/
theorem isTagLine_gutter (l : Text) : isTagLine (" * ".toList ++ l) = beginsWithAt l := by
  have hstar : (" * ".toList ++ l).dropWhile Text.isBlank = '*' :: ' ' :: l := rfl
  have hgap : (' ' :: l).dropWhile Text.isBlank = l.dropWhile Text.isBlank := rfl
  simp only [isTagLine, tagGutter?, hstar, hgap, beginsWithAt]
  cases hl : l.dropWhile Text.isBlank with
  | nil => rfl
  | cons c q =>
    by_cases hc : c = '@'
    · subst hc
      rfl
    · simp [hc]

/-- A line behind a gutter is a tag line only if it begins with an at sign. -/
theorem tagGutter?_gutter {l : Text} (h : beginsWithAt l = false) :
    tagGutter? (" * ".toList ++ l) = none := by
  rw [← isTagLine_gutter] at h
  simpa [isTagLine] using h

/-- A line without white space at its end, as it stands after marking. -/
def marked (line : Text) : Text :=
  if line = [] then "<p>".toList
  else if line.getLast? = some '*' then line ++ " <p>".toList
  else line

/-- Marking a line behind its gutter. -/
theorem markLine_gutter {l : Text} (h : l.getLast?.any Text.isSpace = false) :
    Source.markLine (" * ".toList ++ l) = " * ".toList ++ marked l := by
  by_cases hnil : l = []
  · subst hnil
    rfl
  · have hlast : (" * ".toList ++ l).getLast? = l.getLast? := List.getLast?_append_of_ne_nil _ hnil
    have hkept : Text.trimEnd (· == ' ') (" * ".toList ++ l) = " * ".toList ++ l := by
      apply Text.trimEnd_eq_self
      intro c hc
      rw [hlast] at hc
      rw [hc] at h
      apply Bool.eq_false_iff.mpr
      intro hsp
      rw [eq_of_beq hsp] at h
      exact absurd h (by decide)
    rw [Source.markLine, hkept, hlast, marked, if_neg hnil]
    split
    · rw [List.append_assoc]
    · rfl

theorem notMem_marked {c : Char} (hc : c ∉ " <p>".toList) {l : Text} (h : c ∉ l) : c ∉ marked l := by
  have hp : c ∉ "<p>".toList := fun hmem => hc (List.mem_cons_of_mem ' ' hmem)
  unfold marked
  split
  · exact hp
  · split
    · exact fun hmem => (List.mem_append.mp hmem).elim h hc
    · exact h

/-! ### Whole bodies -/

/-- The body of a comment with the given lines behind its gutters. -/
def gutterBody (ls : List Text) : Text :=
  '\n' :: ((ls.flatMap fun l => " * ".toList ++ l ++ ['\n']) ++ [' '])

section Body

variable {ls : List Text}

theorem gutterBody_cons (l : Text) (ls : List Text) :
    gutterBody (l :: ls) = '\n' :: (" * ".toList ++ l ++ gutterBody ls) := by
  simp [gutterBody]

/-- The lines of a body are those behind its gutters, with an empty line before and a blank behind. -/
theorem lines_gutterBody (h : ∀ l ∈ ls, '\n' ∉ l) :
    Text.lines (gutterBody ls) = [] :: (ls.map (" * ".toList ++ ·) ++ [[' ']]) := by
  have hlines : ∀ l ∈ ls.map (" * ".toList ++ ·), '\n' ∉ l := by
    intro l hl
    obtain ⟨k, hk, rfl⟩ := List.mem_map.mp hl
    simpa using h k hk
  have hflat : (ls.flatMap fun l => " * ".toList ++ l ++ ['\n']) =
      (ls.map (" * ".toList ++ ·)).flatMap (· ++ ['\n']) := by
    rw [List.flatMap_map]
  have hopen := Text.lines_append_cons (l := []) (by simp)
    ((ls.flatMap fun l => " * ".toList ++ l ++ ['\n']) ++ [' '])
  rw [gutterBody, ← List.nil_append ('\n' :: _), hopen, hflat, Text.lines_flatMap_append hlines]
  rfl

/-- **The description lines of a body** are the lines behind its gutters. -/
theorem lineTexts_gutterBody (h : ∀ l ∈ ls, '\n' ∉ l) : lineTexts (gutterBody ls) = ls := by
  have hlead : ∀ c ∈ [' '], Text.isBlank c = true := List.all_eq_true.mp rfl
  have htexts : (ls.map (" * ".toList ++ ·)).filterMap lineText? = ls := by
    rw [List.filterMap_map]
    refine (List.filterMap_congr fun l _ => ?_).trans (List.filterMap_some (l := ls))
    exact lineText?_gutter hlead (by decide) l
  rw [lineTexts, lines_gutterBody h, List.filterMap_cons_none rfl, List.filterMap_append, htexts]
  exact List.append_nil ls

/-- **Marking a body** marks the lines behind its gutters. -/
theorem docOf_gutterBody (hne : ls ≠ []) (h : ∀ l ∈ ls, '\n' ∉ l)
    (ht : ∀ l ∈ ls, l.getLast?.any Text.isSpace = false) :
    Source.docOf (gutterBody ls) = gutterBody (ls.map marked) := by
  have hstar : '*' ∈ gutterBody ls := by
    obtain ⟨l, ls, rfl⟩ := List.exists_cons_of_ne_nil hne
    simp [gutterBody_cons]
  have hmarked : ∀ l ∈ ls.map marked, '\n' ∉ l := by
    intro l hl
    obtain ⟨k, hk, rfl⟩ := List.mem_map.mp hl
    exact notMem_marked (by decide) (h k hk)
  have hlines : (Text.lines (gutterBody ls)).map Source.markLine =
      Text.lines (gutterBody (ls.map marked)) := by
    rw [lines_gutterBody h, lines_gutterBody hmarked, List.map_cons, List.map_append, List.map_map,
      List.map_map]
    have hgutters : ls.map (Source.markLine ∘ (" * ".toList ++ ·)) =
        ls.map ((" * ".toList ++ ·) ∘ marked) :=
      List.map_congr_left fun l hl => markLine_gutter (ht l hl)
    rw [hgutters]
    rfl
  rw [Source.docOf_eq_markBlankLines, Source.starred, if_pos hstar, Source.markBlankLines_eq, hlines,
    Text.joinWith_lines]

/-- Without at signs behind the gutters no line is a tag line. -/
theorem tagGutter?_of_mem_lines (h : ∀ l ∈ ls, '\n' ∉ l) (hat : ∀ l ∈ ls, beginsWithAt l = false) :
    ∀ l ∈ Text.lines (gutterBody ls), tagGutter? l = none := by
  intro l hl
  rw [lines_gutterBody h] at hl
  rcases List.mem_cons.mp hl with rfl | hl
  · rfl
  · rcases List.mem_append.mp hl with hl | hl
    · obtain ⟨k, hk, rfl⟩ := List.mem_map.mp hl
      exact tagGutter?_gutter (hat k hk)
    · obtain rfl := List.mem_singleton.mp hl
      rfl

/-- **A body with one tag, on its first line.** The chunk of the tag is the rest of the body. -/
theorem splitTags_gutterBody_tag {tag : Text} (htag : '\n' ∉ tag) (h : ∀ l ∈ ls, '\n' ∉ l)
    (hat : ∀ l ∈ ls, beginsWithAt l = false) :
    splitTags (gutterBody (('@' :: tag) :: ls)) = (['\n'], ['@' :: (tag ++ gutterBody ls)]) := by
  have hgutter : tagGutter? (" * ".toList ++ '@' :: tag) = some 3 := by
    have hstar : (" * ".toList ++ '@' :: tag).dropWhile Text.isBlank = '*' :: ' ' :: '@' :: tag := rfl
    have hgap : (' ' :: '@' :: tag).dropWhile Text.isBlank = '@' :: tag := rfl
    simp only [tagGutter?, hstar, hgap, List.length_append, List.length_cons, Option.some.injEq]
    exact Nat.add_sub_cancel 3 _
  have hline : '\n' ∉ " * ".toList ++ '@' :: tag := by simpa using htag
  obtain ⟨t, ht⟩ : ∃ t, gutterBody ls = [] ++ '\n' :: t := ⟨_, rfl⟩
  have hrest : cutTagsFrom true 0 t = [t] := by
    apply cutTagsFrom_eq_singleton
    intro l hl
    apply tagGutter?_of_mem_lines h hat
    rw [ht, Text.lines_append_cons (by simp)]
    exact List.mem_cons_of_mem _ hl
  rw [splitTags, gutterBody_cons, ht, List.nil_append,
    ← List.nil_append ('\n' :: (" * ".toList ++ '@' :: tag ++ '\n' :: t)),
    cutTagsFrom_line (by simp) rfl, cutTagsFrom_tagLine hline hgutter, hrest]
  rfl

theorem gutterBody_eq_flatMap (ls : List Text) :
    gutterBody ls = (ls.flatMap fun l => "\n *".toList ++ ' ' :: l) ++ "\n ".toList := by
  induction ls with
  | nil => rfl
  | cons l ls ih =>
    rw [gutterBody_cons, ih]
    simp

/-- **The lines of a value** are the lines behind the gutters, with a blank before each. -/
theorem cut_continuation_gutterBody {g : Text} (hg : g ≠ [])
    (hend : g.getLast?.any Text.isSpace = false) (h : ∀ l ∈ ls ++ [g], '\n' ∉ l ∧ '\r' ∉ l) :
    Text.cut continuation? (Text.stripEnd (gutterBody (ls ++ [g]))) =
      [] :: (ls ++ [g]).map (' ' :: ·) := by
  have hspace : ∀ c ∈ "\n ".toList, Text.isSpace c = true := List.all_eq_true.mp rfl
  have hstrip : Text.stripEnd (gutterBody (ls ++ [g])) =
      ((ls ++ [g]).map (' ' :: ·)).flatMap fun l => "\n *".toList ++ l := by
    rw [gutterBody_eq_flatMap, Text.stripEnd, Text.trimEnd_append_of_all _ hspace, List.flatMap_map]
    apply Text.trimEnd_eq_self
    intro c hc
    have hlast : ((ls ++ [g]).flatMap fun l => "\n *".toList ++ ' ' :: l) =
        (ls.flatMap fun l => "\n *".toList ++ ' ' :: l) ++ "\n * ".toList ++ g := by
      simp
    rw [hlast, List.getLast?_append_of_ne_nil _ hg] at hc
    simpa [hc] using hend
  rw [hstrip]
  apply cut_continuation_flatMap
  intro l hl
  obtain ⟨k, hk, rfl⟩ := List.mem_map.mp hl
  simpa using h k hk

end Body

end DocMark.Comment
