import DocMark.Proofs.Source.Extraction

/-!
Documented imports.

A declaration run ends before the first opening brace, semicolon or slash, and it is trimmed before it is
asked whether it is an import. Trimming takes away the white space behind a word that ends the run. So the
run of an import is recognised exactly when it holds something behind the word (`isImportLine_strip_iff`),
and that of an import of names in braces is not. `imports_skipped_iff` is what this means for the sections
of a text.
-/

namespace DocMark.Source

open Text

/-! ### Runs that open with an import -/

/-- The run opens with an import: white space, the word, and white space. Behind the first character of
that stands `rest`. -/
def ImportRun (run rest : Text) : Prop :=
  ∃ lead c, run = lead ++ "import".toList ++ c :: rest ∧ (∀ d ∈ lead, isSpace d = true) ∧
    isSpace c = true

def OpensImport (run : Text) : Prop := ∃ rest, ImportRun run rest

/-- An import whose run holds more than white space behind the word. -/
def NamesImport (run : Text) : Prop := ∃ rest, ImportRun run rest ∧ ∃ d ∈ rest, isSpace d = false

/-- An import whose run ends with white space behind the word. -/
def IsBareImport (run : Text) : Prop := ∃ rest, ImportRun run rest ∧ ∀ d ∈ rest, isSpace d = true

namespace ImportRun

variable {run rest : Text}

theorem dropWhile_eq (h : ImportRun run rest) :
    ∃ c, run.dropWhile isSpace = "import".toList ++ c :: rest ∧ isSpace c = true := by
  obtain ⟨lead, c, rfl, hlead, hc⟩ := h
  refine ⟨c, ?_, hc⟩
  rw [List.append_assoc, List.dropWhile_append_of_pos hlead]
  rfl

theorem strip_of_bare (h : ImportRun run rest) (hrest : ∀ d ∈ rest, isSpace d = true) :
    strip run = "import".toList := by
  obtain ⟨c, hdrop, hc⟩ := h.dropWhile_eq
  rw [strip, hdrop, stripEnd, trimEnd_append_of_all _ (List.forall_mem_cons.mpr ⟨hc, hrest⟩)]
  rfl

/-- With ink behind the word, the declaration is an import. -/
theorem isImportLine_strip (h : ImportRun run rest) (hrest : ∃ d ∈ rest, isSpace d = false) :
    IsImportLine (strip run) := by
  obtain ⟨c, hdrop, hc⟩ := h.dropWhile_eq
  refine ⟨c, stripEnd rest, ?_, hc⟩
  rw [strip, hdrop, List.append_cons, stripEnd, trimEnd_append_of_exists _ hrest, List.append_assoc]
  rfl

end ImportRun

/-- **A trimmed run is an import exactly when something stands behind the word.** -/
theorem isImportLine_strip_iff {run : Text} : IsImportLine (strip run) ↔ NamesImport run := by
  constructor
  · rintro ⟨c, rest, hstrip, hc⟩
    obtain ⟨tail, hdrop, htail⟩ := exists_trimEnd_append isSpace (run.dropWhile isSpace)
    have hrun : ImportRun run (rest ++ tail) := by
      refine ⟨run.takeWhile isSpace, c, ?_, fun d hd => List.mem_takeWhile_imp hd, hc⟩
      rw [List.append_assoc, ← List.cons_append, ← List.append_assoc "import".toList, ← hstrip]
      conv_lhs => rw [← List.takeWhile_append_dropWhile (p := isSpace) (l := run), hdrop]
      rfl
    refine ⟨rest ++ tail, hrun, ?_⟩
    -- With white space only behind the word, the trimmed run would end with the word.
    by_contra hnone
    have hall : ∀ d ∈ rest ++ tail, isSpace d = true := by
      intro d hd
      by_contra hspace
      exact hnone ⟨d, hd, by simpa using hspace⟩
    rw [hrun.strip_of_bare hall] at hstrip
    exact absurd (congrArg List.length hstrip) (by simp)
  · rintro ⟨rest, hrun, hrest⟩
    exact hrun.isImportLine_strip hrest

theorem opensImport_iff {run : Text} : OpensImport run ↔ IsImportLine (run.dropWhile isSpace) := by
  constructor
  · rintro ⟨rest, hrun⟩
    obtain ⟨c, hdrop, hc⟩ := hrun.dropWhile_eq
    exact ⟨c, rest, hdrop, hc⟩
  · rintro ⟨c, rest, hdrop, hc⟩
    refine ⟨rest, run.takeWhile isSpace, c, ?_, fun d hd => List.mem_takeWhile_imp hd, hc⟩
    rw [List.append_assoc, ← hdrop, List.takeWhile_append_dropWhile]

instance : DecidablePred NamesImport := fun _ => decidable_of_iff _ isImportLine_strip_iff

instance : DecidablePred OpensImport := fun _ => decidable_of_iff _ opensImport_iff.symm

theorem NamesImport.opensImport {run : Text} (h : NamesImport run) : OpensImport run := by
  obtain ⟨rest, hrun, -⟩ := h
  exact ⟨rest, hrun⟩

theorem IsBareImport.strip_eq {run : Text} (h : IsBareImport run) : strip run = "import".toList := by
  obtain ⟨rest, hrun, hrest⟩ := h
  exact hrun.strip_of_bare hrest

/-- A run that opens with an import is bare, or names something, and never both. -/
theorem OpensImport.not_namesImport_iff {run : Text} (h : OpensImport run) :
    ¬ NamesImport run ↔ IsBareImport run := by
  constructor
  · intro hnot
    obtain ⟨rest, hrun⟩ := h
    refine ⟨rest, hrun, ?_⟩
    intro d hd
    by_contra hspace
    exact hnot ⟨rest, hrun, d, hd, by simpa using hspace⟩
  · intro hbare hnames
    obtain ⟨c, rest, hline, -⟩ := isImportLine_strip_iff.mpr hnames
    rw [hbare.strip_eq] at hline
    exact absurd (congrArg List.length hline) (by simp)

/-! ### The sections of a text with imports -/

/-- Sections are made of all comments but those on imports with a name. -/
theorem sections_eq_filter_namesImport {source : Text} {spans : List Span}
    (h : Leftmost (normalizeNewlines source) 0 spans) :
    sections source =
      (spans.filter fun s => ¬ NamesImport (s.run (normalizeNewlines source))).map
        (Span.toSection (normalizeNewlines source)) := by
  rw [sections_eq_of_leftmost h]
  refine congrArg _ (List.filter_congr ?_)
  intro s _
  exact decide_eq_decide.mpr (not_congr isImportLine_strip_iff)

/-- **When documented imports give no section.** A comment gives no section exactly when its run names
something behind the word `import`, whatever ends the run. So the sections of a text are those of the
comments whose runs do not open with an import, unless the run of some import is bare: that comment gives
a section, whose declaration is the word alone. -/
theorem imports_skipped_iff (source : Text) :
    let t := normalizeNewlines source
    ∃ spans : List Span, Leftmost t 0 spans ∧
      (Scanner.ofPattern sectionPattern t).allMatches = spans.map (Span.toMatch t) ∧
      sections source = (spans.filter fun s => ¬ NamesImport (s.run t)).map (Span.toSection t) ∧
      (∀ s ∈ spans, OpensImport (s.run t) → (¬ NamesImport (s.run t) ↔ IsBareImport (s.run t))) ∧
      (∀ s ∈ spans, IsBareImport (s.run t) → (s.toSection t).line = "import".toList) ∧
      (sections source = (spans.filter fun s => ¬ OpensImport (s.run t)).map (Span.toSection t) ↔
        ∀ s ∈ spans, ¬ IsBareImport (s.run t)) := by
  intro t
  obtain ⟨spans, h⟩ := exists_leftmost t 0
  have hsections := sections_eq_filter_namesImport h
  refine ⟨spans, h, allMatches_sectionPattern h, hsections, fun s _ hs => hs.not_namesImport_iff,
    fun s _ hs => hs.strip_eq, ?_⟩
  rw [hsections]
  constructor
  · intro heq s hs hbare
    have hopens : OpensImport (s.run t) := by
      obtain ⟨rest, hrun, -⟩ := hbare
      exact ⟨rest, hrun⟩
    -- The comments that open no import are some of those that name none; as many means all of them.
    have hsub : (spans.filter fun s => ¬ OpensImport (s.run t)).Sublist
        (spans.filter fun s => ¬ NamesImport (s.run t)) := by
      apply List.monotone_filter_right
      intro u hu
      simpa using fun hnames => (of_decide_eq_true hu) (NamesImport.opensImport hnames)
    have hlength := congrArg List.length heq
    rw [List.length_map, List.length_map] at hlength
    have hmem : s ∈ spans.filter fun s => ¬ NamesImport (s.run t) :=
      List.mem_filter.mpr ⟨hs, decide_eq_true (hopens.not_namesImport_iff.mpr hbare)⟩
    rw [← hsub.eq_of_length hlength.symm] at hmem
    exact of_decide_eq_true (List.mem_filter.mp hmem).2 hopens
  · intro hnone
    refine congrArg _ (List.filter_congr ?_)
    intro s hs
    refine decide_eq_decide.mpr (not_congr ⟨NamesImport.opensImport, ?_⟩)
    intro hopens
    by_contra hnot
    exact hnone s hs (hopens.not_namesImport_iff.mp hnot)

example : (sections "/** A. */ import a.b; /** B. */ import \x7bc\x7d".toList).map Section.line =
    ["import".toList] := by
  decide

end DocMark.Source
