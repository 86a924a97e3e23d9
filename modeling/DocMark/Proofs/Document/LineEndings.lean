import DocMark.Proofs.Document.Headings
import DocMark.Proofs.Source.SingleComment

/-!
Line endings do not matter.

A source may end its lines with a line feed, with a carriage return or with both. Normalizing leaves only line
feeds: it is the same as replacing first the pairs and then the carriage returns that are left
(`normalizeNewlines_eq_replaceText`), it takes back what any of the endings was written for
(`normalizeNewlines_replaceText`), and no carriage return is left (`carriageReturn_notMem_normalizeNewlines`).
Sections are cut from the normalized text, so the whole document is the same (`render_line_endings`).
-/

namespace DocMark.Text

/-! ### Replacing one text by another -/

/-- Write `new` for every occurrence of `old`, from left to right. -/
def replaceText (old new s : Text) : Text :=
  replaceAll (fun t => if startsWith old t then some (old.length, new) else none) s

theorem replaceText_append (c : Char) (old new r : Text) :
    replaceText (c :: old) new (c :: old ++ r) = new ++ replaceText (c :: old) new r := by
  have hstarts : startsWith (c :: old) (c :: old ++ r) = true :=
    List.isPrefixOf_iff_prefix.mpr (List.prefix_append _ _)
  rw [replaceText, replaceAll, List.cons_append, replaceFrom, ← List.cons_append, if_pos hstarts]
  change new ++ replaceFrom _ old.length (old ++ r) = _
  rw [replaceFrom_eq_drop, List.drop_left]
  rfl

theorem replaceText_cons {c : Char} {old new r : Text} (h : ¬ old <+: c :: r) :
    replaceText old new (c :: r) = c :: replaceText old new r := by
  have hstarts : ¬ startsWith old (c :: r) = true := fun hs => h (List.isPrefixOf_iff_prefix.mp hs)
  rw [replaceText, replaceAll, replaceFrom, if_neg hstarts]
  rfl

/-- A line feed is written as the ending. -/
theorem replaceText_newline (ending r : Text) :
    replaceText ['\n'] ending ('\n' :: r) = ending ++ replaceText ['\n'] ending r :=
  replaceText_append '\n' [] ending r

/-! ### Normalizing -/

/-- **Normalizing is two replacements**: of the pairs, and then of the carriage returns that are left. -/
theorem normalizeNewlines_eq_replaceText (s : Text) :
    normalizeNewlines s = replaceText ['\r'] ['\n'] (replaceText ['\r', '\n'] ['\n'] s) := by
  induction s with
  | nil => rfl
  | cons c r ih =>
    by_cases hc : c = '\r'
    · subst hc
      rw [normalizeNewlines, if_pos rfl]
      by_cases hr : r.head? = some '\n'
      · -- A pair becomes the line feed that the first replacement would have kept.
        obtain ⟨r', rfl⟩ := List.head?_eq_some_iff.mp hr
        rw [if_pos hr, ih, replaceText_cons (by simp)]
        exact congrArg _ (replaceText_append '\r' ['\n'] ['\n'] r').symm
      · have hpair : ¬ ['\r', '\n'] <+: '\r' :: r := by
          rintro ⟨rest, hrest⟩
          obtain rfl : '\n' :: rest = r := (List.cons.inj hrest).2
          exact hr rfl
        rw [if_neg hr, ih, replaceText_cons hpair]
        exact (replaceText_append '\r' [] ['\n'] _).symm
    · have hother : ∀ old t : Text, ¬ '\r' :: old <+: c :: t := fun old t h => hc (List.cons_prefix_cons.mp h).1.symm
      rw [normalizeNewlines, if_neg hc, ih, replaceText_cons (hother ['\n'] r)]
      exact (replaceText_cons (hother [] _)).symm

/-- No carriage return is left. -/
theorem carriageReturn_notMem_normalizeNewlines (s : Text) : '\r' ∉ normalizeNewlines s := by
  induction s with
  | nil => exact List.not_mem_nil
  | cons c r ih =>
    rw [normalizeNewlines]
    split
    · split
      · exact ih
      · exact List.not_mem_cons_of_ne_of_not_mem (by decide) ih
    · rename_i hc
      exact List.not_mem_cons_of_ne_of_not_mem (Ne.symm hc) ih

@[simp] theorem normalizeNewlines_normalizeNewlines (s : Text) :
    normalizeNewlines (normalizeNewlines s) = normalizeNewlines s :=
  Source.normalizeNewlines_eq_self (carriageReturn_notMem_normalizeNewlines s)

def foreignEndings : List Text := [['\r', '\n'], ['\r']]

/-- A foreign ending is one line feed, unless a line feed of its own follows. -/
theorem normalizeNewlines_ending {ending : Text} (he : ending ∈ foreignEndings) {r : Text}
    (hr : r.head? ≠ some '\n') : normalizeNewlines (ending ++ r) = '\n' :: normalizeNewlines r := by
  rcases List.mem_pair.mp he with rfl | rfl
  · simp [normalizeNewlines]
  · simp [normalizeNewlines, hr]

/-- Where line feeds are written in a foreign way, no text begins with one. -/
theorem head?_replaceText {ending : Text} (he : ending ∈ foreignEndings) (t : Text) :
    (replaceText ['\n'] ending t).head? ≠ some '\n' := by
  cases t with
  | nil =>
    intro h
    cases h
  | cons c r =>
    by_cases hc : c = '\n'
    · subst hc
      rw [replaceText_newline]
      rcases List.mem_pair.mp he with rfl | rfl
      · simp
      · simp
    · rw [replaceText_cons (by simpa using Ne.symm hc)]
      simpa using hc

/-- **Normalizing takes back the line feeds** of a text without carriage returns. -/
theorem normalizeNewlines_replaceText {ending t : Text} (he : ending ∈ foreignEndings) (h : '\r' ∉ t) :
    normalizeNewlines (replaceText ['\n'] ending t) = t := by
  induction t with
  | nil => rfl
  | cons c r ih =>
    simp only [List.mem_cons, not_or] at h
    obtain ⟨hc, hr⟩ := h
    by_cases hline : c = '\n'
    · subst hline
      rw [replaceText_newline, normalizeNewlines_ending he (head?_replaceText he r), ih hr]
    · rw [replaceText_cons (by simpa using Ne.symm hline), normalizeNewlines, if_neg (Ne.symm hc), ih hr]

end DocMark.Text

namespace DocMark.Source

open Text

/-! ### Sections -/

theorem sections_normalizeNewlines (source : Text) : sections (normalizeNewlines source) = sections source := by
  rw [sections, sections, commentRuns, commentRuns, normalizeNewlines_normalizeNewlines]

/-- The text of a section holds no characters but those of its comment, apart from a star in front, markers and
line feeds. -/
theorem mem_of_mem_docOf {c : Char} (hstar : c ≠ '*') (hmarker : c ∉ " <p>".toList) (hline : c ≠ '\n')
    {body : Text} (h : c ∈ docOf body) : c ∈ body := by
  rw [docOf_eq_markBlankLines] at h
  obtain ⟨l, hl, hmem⟩ := exists_mem_lines hline h
  rw [lines_markBlankLines] at hl
  obtain ⟨l', hl', rfl⟩ := List.mem_map.mp hl
  have hstarred := mem_of_mem_lines hl' (mem_of_mem_markLine hmarker hmem)
  rw [starred] at hstarred
  split at hstarred
  · exact hstarred
  · exact List.mem_of_ne_of_mem hstar hstarred

/-- No section has a carriage return, since the normalized source has none. -/
theorem carriageReturn_notMem_section {source : Text} {s : Section} (hs : s ∈ sections source) :
    '\r' ∉ s.line ∧ '\r' ∉ s.doc := by
  have hnone := carriageReturn_notMem_normalizeNewlines source
  have hextract : ∀ i j, '\r' ∉ (normalizeNewlines source).extract i j := by
    intro i j hmem
    rw [List.extract_eq_take_drop] at hmem
    exact hnone (List.mem_of_mem_drop (List.mem_of_mem_take hmem))
  obtain ⟨spans, h⟩ := exists_leftmost (normalizeNewlines source) 0
  rw [sections_eq_of_leftmost h] at hs
  obtain ⟨span, -, rfl⟩ := List.mem_map.mp hs
  rw [Span.toSection_eq]
  refine ⟨fun hmem => hextract _ _ ((strip_sublist _).subset hmem), fun hmem => ?_⟩
  exact hextract _ _ (mem_of_mem_docOf (by decide) (by decide) (by decide) hmem)

end DocMark.Source

namespace DocMark.Document

open Text Source

theorem render_normalizeNewlines (options : Options) (source : Text) :
    render options (normalizeNewlines source) = render options source := by
  rw [render, render, sections_normalizeNewlines]

/-- A document does not show which ending the lines of its source have. -/
theorem render_replaceText (options : Options) {ending t : Text} (he : ending ∈ foreignEndings) (h : '\r' ∉ t) :
    render options (replaceText ['\n'] ending t) = render options t := by
  rw [← render_normalizeNewlines, normalizeNewlines_replaceText he h]

/-- **Line endings do not matter.** A source without carriage returns gives the same document when its line feeds are
written as pairs and when they are written as carriage returns, and it does give one if the flavor says how types are
written. Every source has the sections of its normalized text, in which all pairs and then all other carriage
returns have become line feeds, and no section has a carriage return. -/
theorem render_line_endings (f : Flavor) (level : Int) :
    (∀ t, '\r' ∉ t →
      render ⟨f, level⟩ (replaceText ['\n'] ['\r', '\n'] t) = render ⟨f, level⟩ t ∧
      render ⟨f, level⟩ (replaceText ['\n'] ['\r'] t) = render ⟨f, level⟩ t ∧
      (f.IsSpecified → ∃ r, render ⟨f, level⟩ t = .ok r)) ∧
    ∀ source,
      normalizeNewlines source = replaceText ['\r'] ['\n'] (replaceText ['\r', '\n'] ['\n'] source) ∧
      sections source = sections (normalizeNewlines source) ∧
      ∀ s ∈ sections source, '\r' ∉ s.line ∧ '\r' ∉ s.doc := by
  refine ⟨fun t h => ⟨?_, ?_, ?_⟩, fun source => ⟨?_, ?_, ?_⟩⟩
  · exact render_replaceText ⟨f, level⟩ List.mem_cons_self h
  · exact render_replaceText ⟨f, level⟩ (List.mem_cons_of_mem _ List.mem_cons_self) h
  · exact fun hf => exists_render hf level t
  · exact normalizeNewlines_eq_replaceText source
  · exact (sections_normalizeNewlines source).symm
  · exact fun s hs => carriageReturn_notMem_section hs

/-- A source with an empty line, and the same source with both foreign endings. -/
theorem render_line_endings_paragraphs :
    '\r' ∉ "/**\n * A.\n *\n * B. */\nint x;".toList ∧ Flavor.phpdoc.IsSpecified ∧
    ∃ r, render ⟨Flavor.phpdoc, 2⟩ "/**\n * A.\n *\n * B. */\nint x;".toList = .ok r ∧
      render ⟨Flavor.phpdoc, 2⟩ "/**\r\n * A.\r\n *\r\n * B. */\r\nint x;".toList = .ok r ∧
      render ⟨Flavor.phpdoc, 2⟩ "/**\r * A.\r *\r * B. */\rint x;".toList = .ok r := by
  have hnone : '\r' ∉ "/**\n * A.\n *\n * B. */\nint x;".toList := by decide
  have hphpdoc : Flavor.phpdoc.IsSpecified := Flavor.isSpecified_of_mem_named (by decide)
  have hpairs : replaceText ['\n'] ['\r', '\n'] "/**\n * A.\n *\n * B. */\nint x;".toList =
      "/**\r\n * A.\r\n *\r\n * B. */\r\nint x;".toList := by decide
  have hreturns : replaceText ['\n'] ['\r'] "/**\n * A.\n *\n * B. */\nint x;".toList =
      "/**\r * A.\r *\r * B. */\rint x;".toList := by decide
  obtain ⟨hsame, hsame', hrender⟩ := (render_line_endings Flavor.phpdoc 2).1 _ hnone
  obtain ⟨r, hr⟩ := hrender hphpdoc
  rw [hpairs, hr] at hsame
  rw [hreturns, hr] at hsame'
  exact ⟨hnone, hphpdoc, r, hr, hsame, hsame'⟩

end DocMark.Document
