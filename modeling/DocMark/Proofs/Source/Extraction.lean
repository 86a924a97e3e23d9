import DocMark.Proofs.Source.BlankLines
import DocMark.Proofs.Source.Spans

/-!
Which sections a source text has.

* `sections_eq_of_leftmost`: the sections are the successive comments of the text, each with its own
  declaration and text, but for documented imports.
* `sections_leftmost_shortest`: the whole statement, with the scanner's matches and with what it
  excludes: nothing is missed, repeated or overlapped.
* `sections_close_free_iff`: a comment closes only where a declaration run can follow, so its body may
  run on over the end of a comment. This says exactly when the text of a section holds such an end.
-/

namespace DocMark.Source

/-! ### The section of a comment -/

/-- A documented import: the word, white space, and anything behind it. -/
def IsImportLine (line : Text) : Prop :=
  ∃ c rest, line = "import".toList ++ c :: rest ∧ Text.isSpace c = true

/-- An import is found exactly if the line begins with the word and white space. -/
theorem isImport_iff {line : Text} : isImport line = true ↔ IsImportLine line := by
  unfold isImport
  constructor
  · intro h
    split at h
    · rename_i c rest hpre
      exact ⟨c, rest, (List.isPrefixOf?_eq_some_iff_append_eq.mp hpre).symm, h⟩
    · exact absurd h (by simp)
  · rintro ⟨c, rest, rfl, hc⟩
    rw [List.isPrefixOf?_eq_some_iff_append_eq.mpr rfl]
    exact hc

instance : DecidablePred IsImportLine := fun _ => decidable_of_iff _ isImport_iff

/-- A comment body with at least one star: a body without any gets one in front. -/
def starred (body : Text) : Text := if '*' ∈ body then body else '*' :: body

theorem docOf_eq_markBlankLines (body : Text) : docOf body = markBlankLines (starred body) := by
  simp only [docOf, starred, List.contains_iff_mem]

/-- The section of a comment: its declaration, and its body with at least one star and with every blank
line marked. -/
def Span.toSection (t : Text) (s : Span) : Section :=
  ⟨s.line t, Text.joinWith ['\n'] ((Text.lines (starred (s.body t))).map markLine)⟩

theorem Span.toSection_eq (t : Text) (s : Span) : s.toSection t = ⟨s.line t, docOf (s.body t)⟩ := by
  rw [Span.toSection, docOf_eq_markBlankLines, markBlankLines_eq]

/-- The comments of a source are those of its leftmost spans. -/
theorem commentRuns_eq_of_leftmost {source : Text} {spans : List Span}
    (h : Leftmost (Text.normalizeNewlines source) 0 spans) :
    commentRuns source = spans.map fun s =>
      (s.body (Text.normalizeNewlines source), s.run (Text.normalizeNewlines source)) := by
  rw [commentRuns, allMatches_sectionPattern h, List.filterMap_map, ← List.filterMap_eq_map]
  rfl

/-- **The sections are the successive comments**, but for documented imports. -/
theorem sections_eq_of_leftmost {source : Text} {spans : List Span}
    (h : Leftmost (Text.normalizeNewlines source) 0 spans) :
    sections source =
      (spans.filter fun s => ¬ IsImportLine (s.line (Text.normalizeNewlines source))).map
        (Span.toSection (Text.normalizeNewlines source)) := by
  rw [sections, commentRuns_eq_of_leftmost h, List.filterMap_map]
  generalize Text.normalizeNewlines source = t
  clear h
  induction spans with
  | nil => rfl
  | cons s spans ih =>
    have hline : Text.strip (s.run t) = s.line t := rfl
    by_cases himp : IsImportLine (s.line t)
    · rw [List.filterMap_cons_none, ih, List.filter_cons_of_neg (by simpa using himp)]
      simp only [Function.comp_apply, hline, isImport_iff.mpr himp, ite_true]
    · have hnot : isImport (s.line t) = false :=
        Bool.eq_false_iff.mpr fun hi => himp (isImport_iff.mp hi)
      have hsome : (some (s.toSection t) : Option Section) =
          some ⟨s.line t, docOf (s.body t)⟩ := by rw [Span.toSection_eq]
      rw [List.filterMap_cons_some (b := s.toSection t), ih,
        List.filter_cons_of_pos (by simpa using himp), List.map_cons]
      simp only [Function.comp_apply, hline, hnot, hsome, Bool.false_eq_true, ite_false]

/-- **Extraction is complete, ordered, leftmost and shortest.** The matches of the scanner are the one
list of successive comments, and the sections are the sections of these comments in order, without the
documented imports. No two listed comments overlap, every comment of the text is listed or starts
inside a listed one, and a text without comments has no section. -/
theorem sections_leftmost_shortest (source : Text) :
    let t := Text.normalizeNewlines source
    ∃ spans : List Span,
      (∀ other, Leftmost t 0 other ↔ other = spans) ∧
      (Scanner.ofPattern sectionPattern t).allMatches = spans.map (Span.toMatch t) ∧
      sections source =
        (spans.filter fun s => ¬ IsImportLine (s.line t)).map (Span.toSection t) ∧
      spans.Pairwise (fun a b => a.stop ≤ b.start) ∧
      (∀ s, IsComment t s →
        s ∈ spans ∨ ∃ s' ∈ spans, s'.start < s.start ∧ s.start < s'.stop) ∧
      ((∀ s, ¬ IsComment t s) → sections source = []) := by
  intro t
  obtain ⟨spans, h⟩ := exists_leftmost t 0
  refine ⟨spans, ?_, allMatches_sectionPattern h, sections_eq_of_leftmost h, h.pairwise, ?_, ?_⟩
  · intro other
    constructor
    · intro hother
      exact hother.unique h
    · rintro rfl
      exact h
  · intro s hs
    exact h.covers hs (Nat.zero_le s.start)
  · intro hnone
    have hempty : spans = [] := h.unique (.done fun s hs => absurd hs (hnone s))
    rw [sections_eq_of_leftmost h, hempty]
    rfl

/-! ### The end of a comment inside a section -/

theorem standsClose_iff {t : Text} {m : Nat} :
    "*/".toList <+: t.drop m ↔ t[m]? = some '*' ∧ t[m + 1]? = some '/' := by
  constructor
  · rintro ⟨rest, hrest⟩
    have h0 : (t.drop m)[0]? = some '*' := by rw [← hrest]; rfl
    have h1 : (t.drop m)[1]? = some '/' := by rw [← hrest]; rfl
    rw [List.getElem?_drop] at h0 h1
    exact ⟨h0, h1⟩
  · rintro ⟨h0, h1⟩
    have hlt := (List.getElem?_eq_some_iff.mp h1).1
    refine ⟨t.drop (m + 2), ?_⟩
    rw [List.drop_eq_getElem_cons (show m < t.length by omega),
      List.drop_eq_getElem_cons (show m + 1 < t.length by omega)]
    rw [List.getElem?_eq_getElem (by omega), Option.some.injEq] at h0 h1
    rw [h0, h1]
    rfl

/-- Marking a line neither makes nor removes the end of a comment. -/
theorem infix_close_markLine_iff (l : Text) :
    "*/".toList <:+: markLine l ↔ "*/".toList <:+: l := by
  have hspace : ' ' ∉ "*/".toList := by decide
  by_cases hmark : (Text.trimEnd (· == ' ') l).getLast? = some '*'
  · obtain ⟨sp, hl, hsp⟩ := Text.exists_trimEnd_append (· == ' ') l
    have hmarked : markLine l = Text.trimEnd (· == ' ') l ++ ' ' :: "<p>".toList := if_pos hmark
    have hp : ¬ "*/".toList <:+: "<p>".toList := by decide
    rw [hmarked, Text.infix_append_cons_iff hspace, or_iff_left hp]
    -- What was cut off is spaces only, so it holds no end of a comment either.
    conv_rhs => rw [hl]
    cases sp with
    | nil => rw [List.append_nil]
    | cons c sp =>
      have hc : c = ' ' := by simpa using hsp c List.mem_cons_self
      subst hc
      rw [Text.infix_append_cons_iff hspace, or_iff_left]
      intro hin
      have hstar := hsp '*' (List.mem_cons_of_mem ' ' (hin.subset (by decide)))
      exact absurd hstar (by decide)
  · rw [markLine_eq_self hmark]

/-- When the text of a section holds the end of a comment: the body does, or the star put in front of a
body without stars makes one. -/
theorem infix_close_docOf_iff (body : Text) :
    "*/".toList <:+: docOf body ↔
      "*/".toList <:+: body ∨ (body.head? = some '/' ∧ '*' ∉ body) := by
  have hlines : "*/".toList <:+: docOf body ↔ "*/".toList <:+: starred body := by
    have hnl : '\n' ∉ "*/".toList := by decide
    rw [docOf_eq_markBlankLines, markBlankLines_eq,
      Text.infix_joinWith_iff hnl (by simp [Text.lines_ne_nil])]
    conv_rhs => rw [← Text.joinWith_lines (starred body),
      Text.infix_joinWith_iff hnl (Text.lines_ne_nil _)]
    simp only [List.mem_map, exists_exists_and_eq_and, infix_close_markLine_iff]
  rw [hlines, starred]
  by_cases hstar : '*' ∈ body
  · simp [hstar]
  · have hbody : ¬ "*/".toList <:+: body := fun hin => hstar (hin.subset (by decide))
    rw [if_neg hstar, List.infix_cons_iff, or_iff_left hbody]
    simp only [hbody, false_or, hstar, not_false_eq_true, and_true]
    cases body with
    | nil => decide
    | cons c r =>
      constructor
      · rintro ⟨rest, hrest⟩
        obtain ⟨hc, -⟩ : '/' = c ∧ rest = r := by simpa using hrest
        simp [← hc]
      · intro hc
        have hc : c = '/' := by simpa using hc
        exact ⟨r, by rw [hc]; rfl⟩

namespace IsComment

variable {t : Text} {s : Span}

theorem getElem?_body (h : IsComment t s) {m : Nat} (hm : s.start + 3 + m < s.close) :
    (s.body t)[m]? = t[s.start + 3 + m]? := by
  have hle := h.open_le_close
  rw [Span.body, List.extract_eq_take_drop, List.getElem?_take_of_lt (by omega), List.getElem?_drop]

theorem getElem?_body_of_le (h : IsComment t s) {m : Nat} (hm : s.close ≤ s.start + 3 + m) :
    (s.body t)[m]? = none := by
  have hle := h.open_le_close
  apply List.getElem?_eq_none
  rw [h.length_body]
  omega

/-- The body of a comment holds the end of a comment exactly when one stands before the place where the
comment closes. -/
theorem infix_close_body_iff (h : IsComment t s) :
    "*/".toList <:+: s.body t ↔
      ∃ m, s.start + 3 ≤ m ∧ m < s.close ∧ "*/".toList <+: t.drop m := by
  constructor
  · intro hin
    obtain ⟨u, hpre, hsuf⟩ := List.infix_iff_prefix_suffix.mp hin
    obtain ⟨a, ha⟩ := hsuf
    have hdrop : (s.body t).drop a.length = u := by rw [← ha, List.drop_left]
    rw [← hdrop] at hpre
    obtain ⟨h0, h1⟩ := standsClose_iff.mp hpre
    have hlt : s.start + 3 + (a.length + 1) < s.close := by
      by_contra hge
      rw [h.getElem?_body_of_le (by omega)] at h1
      exact absurd h1 (by simp)
    rw [h.getElem?_body (by omega)] at h0
    rw [h.getElem?_body hlt] at h1
    exact ⟨s.start + 3 + a.length, by omega, by omega, standsClose_iff.mpr ⟨h0, h1⟩⟩
  · rintro ⟨m, hle, hlt, hm⟩
    obtain ⟨h0, h1⟩ := standsClose_iff.mp hm
    -- The two ends do not share characters: a slash stands behind `m`, and a star at the close.
    have hnext : m + 1 < s.close := by
      obtain ⟨hclose, -⟩ := standsClose_iff.mp h.closes.1
      by_contra hge
      have heq : m + 1 = s.close := by omega
      rw [heq, hclose] at h1
      exact absurd h1 (by decide)
    have hadd : s.start + 3 + (m - (s.start + 3)) = m := Nat.add_sub_cancel' hle
    have hstands : "*/".toList <+: (s.body t).drop (m - (s.start + 3)) := by
      apply standsClose_iff.mpr
      rw [h.getElem?_body (by omega), h.getElem?_body (by omega), hadd, ← Nat.add_assoc, hadd]
      exact ⟨h0, h1⟩
    exact hstands.isInfix.trans (List.drop_suffix _ _).isInfix

/-- An end of a comment inside the body has a character behind it that no declaration run can hold. -/
theorem stopper_of_close_in_body (h : IsComment t s) {m : Nat} (hle : s.start + 3 ≤ m)
    (hlt : m < s.close) (hm : "*/".toList <+: t.drop m) :
    ∃ c, t[m + 2]? = some c ∧ isRunChar c = false := by
  have hlen := h.close_add_two_lt
  refine ⟨t[m + 2], List.getElem?_eq_getElem (by omega), ?_⟩
  by_contra hrun
  have hcloses : ClosesAt t m :=
    ⟨hm, t[m + 2], List.getElem?_eq_getElem (by omega), by simpa using hrun⟩
  have hfirst := h.closes_first m hle hcloses
  omega

/-- A body begins with a slash exactly if one stands behind the opening. -/
theorem head?_body_eq_slash_iff (h : IsComment t s) :
    (s.body t).head? = some '/' ↔ t[s.start + 3]? = some '/' := by
  have hle := h.open_le_close
  rw [List.head?_eq_getElem?]
  by_cases hlt : s.start + 3 < s.close
  · rw [h.getElem?_body hlt]
  · obtain ⟨hclose, -⟩ := standsClose_iff.mp h.closes.1
    have heq : s.start + 3 = s.close := by omega
    rw [h.getElem?_body_of_le (by omega), heq, hclose]
    decide

/-- When the section of a comment holds the end of a comment: one stands before the place where the
comment closes, with a character behind it that no declaration run can hold; or the opening shares its
last star with a slash, and the body has no star of its own. -/
theorem infix_close_toSection_iff (h : IsComment t s) :
    "*/".toList <:+: (s.toSection t).doc ↔
      (∃ m, s.start + 3 ≤ m ∧ m < s.close ∧ "*/".toList <+: t.drop m ∧
        ∃ c, t[m + 2]? = some c ∧ isRunChar c = false) ∨
      (t[s.start + 3]? = some '/' ∧ '*' ∉ s.body t) := by
  rw [Span.toSection_eq, infix_close_docOf_iff, h.infix_close_body_iff, h.head?_body_eq_slash_iff]
  constructor
  · rintro (⟨m, hle, hlt, hm⟩ | hshared)
    · exact Or.inl ⟨m, hle, hlt, hm, h.stopper_of_close_in_body hle hlt hm⟩
    · exact Or.inr hshared
  · rintro (⟨m, hle, hlt, hm, -⟩ | hshared)
    · exact Or.inl ⟨m, hle, hlt, hm⟩
    · exact Or.inr hshared

end IsComment

/-- **When every section holds one single comment.** No section of a text holds the end of a comment
exactly when each successive comment, documented imports apart, closes at the first end of a comment
behind its opening, and does not have a slash right behind its opening in a body without stars. Where a
comment does run on, an opening brace, a semicolon or a slash stands right behind the end that it
passes. -/
theorem sections_close_free_iff (source : Text) :
    let t := Text.normalizeNewlines source
    ∃ spans : List Span, Leftmost t 0 spans ∧
      sections source =
        (spans.filter fun s => ¬ IsImportLine (s.line t)).map (Span.toSection t) ∧
      (∀ s ∈ spans, "*/".toList <:+: (s.toSection t).doc ↔
        (∃ m, s.start + 3 ≤ m ∧ m < s.close ∧ "*/".toList <+: t.drop m ∧
          ∃ c, t[m + 2]? = some c ∧ isRunChar c = false) ∨
        (t[s.start + 3]? = some '/' ∧ '*' ∉ s.body t)) ∧
      ((∀ sec ∈ sections source, ¬ "*/".toList <:+: sec.doc) ↔
        ∀ s ∈ spans, ¬ IsImportLine (s.line t) →
          (∀ m, s.start + 3 ≤ m → "*/".toList <+: t.drop m → s.close ≤ m) ∧
          ¬ (t[s.start + 3]? = some '/' ∧ '*' ∉ s.body t)) := by
  intro t
  obtain ⟨spans, h⟩ := exists_leftmost t 0
  have hsections := sections_eq_of_leftmost h
  have hdoc := fun s hs => (h.isComment (s := s) hs).infix_close_toSection_iff
  refine ⟨spans, h, hsections, hdoc, ?_⟩
  constructor
  · intro hfree s hs himp
    have hmem : s.toSection t ∈ sections source := by
      rw [hsections]
      exact List.mem_map_of_mem (List.mem_filter.mpr ⟨hs, by simpa using himp⟩)
    have hnot := mt (hdoc s hs).mpr (hfree _ hmem)
    refine ⟨?_, fun hshared => hnot (Or.inr hshared)⟩
    intro m hle hm
    by_contra hge
    have hlt : m < s.close := by omega
    exact hnot (Or.inl ⟨m, hle, hlt, hm, (h.isComment hs).stopper_of_close_in_body hle hlt hm⟩)
  · intro hfirst sec hsec hin
    rw [hsections] at hsec
    obtain ⟨s, hs, rfl⟩ := List.mem_map.mp hsec
    obtain ⟨hs, himp⟩ := List.mem_filter.mp hs
    obtain ⟨hclose, hshared⟩ := hfirst s hs (by simpa using himp)
    rcases (hdoc s hs).mp hin with ⟨m, hle, hlt, hm, -⟩ | hsh
    · have hge := hclose m hle hm
      omega
    · exact hshared hsh

example : (sections "/** a *//** b */ int x;".toList).map Section.doc = [" a *//** b ".toList] := by
  decide

end DocMark.Source
