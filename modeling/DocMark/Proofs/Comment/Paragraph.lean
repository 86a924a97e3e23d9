import DocMark.Proofs.Comment.Gutter
import DocMark.Proofs.Comment.LineKinds
import DocMark.Proofs.Comment.Prose
import DocMark.Proofs.Comment.WrapSteps
import DocMark.Proofs.Text.CleanMarkup

/-!
One paragraph, as a description and as the value of a tag.

Prose without paragraph markers is one paragraph. A description gathers its lines, joins them and cleans the
whole; a value is written piece by piece behind what is there already (`LineWrap.feed_paragraph`), and the two
see the lines differently: a value has a blank in front of each, and the white space at its end is gone
before it is cut (`cut_continuation_joinWith`). Both come to the Markdown of the lines that are not empty,
joined by spaces (`describe_eq_valueOf_of_prose`).
-/

namespace DocMark.Comment

open Text

theorem isClean_proseOf (line : Text) : IsClean (proseOf line) := isClean_codeToMarkdown (isClean_cleanLine line)

theorem markerFree_proseOf {line : Text} (h : MarkerFree line) : MarkerFree (proseOf line) :=
  h.cleanLine.codeToMarkdown

/-! ### Lines as the two readers see them -/

/-- The lines of a raw description behind their gutters. -/
theorem lineTexts_joinWith {ls : List Text} (hne : ls ≠ []) (h : ∀ l ∈ ls, '\n' ∉ l) {lead : Text}
    (hlead : ∀ c ∈ lead, isBlank c = true) :
    lineTexts (lead ++ '*' :: ' ' :: joinWith "\n * ".toList ls) = ls := by
  have hline : ∀ l lead' : Text, '\n' ∉ l → (∀ c ∈ lead', isBlank c = true) →
      '\n' ∉ lead' ++ '*' :: ' ' :: l := by
    intro l lead' hl hlead' hmem
    rcases List.mem_append.mp hmem with hin | hin
    · cases hlead' _ hin
    · simp [hl] at hin
  induction ls generalizing lead with
  | nil => exact absurd rfl hne
  | cons l ls ih =>
    have hl := h l List.mem_cons_self
    have htext := lineText?_gutter hlead (b := ' ') rfl l
    by_cases hnil : ls = []
    · rw [hnil, joinWith, lineTexts, lines_eq_singleton (hline l lead hl hlead),
        List.filterMap_cons_some htext]
      rfl
    · have hblank : ∀ c ∈ [' '], isBlank c = true := List.all_eq_true.mp rfl
      have hrest := ih hnil (fun k hk => h k (List.mem_cons_of_mem l hk)) hblank
      have hcut : lead ++ '*' :: ' ' :: joinWith "\n * ".toList (l :: ls) =
          (lead ++ '*' :: ' ' :: l) ++ '\n' :: ([' '] ++ '*' :: ' ' :: joinWith "\n * ".toList ls) := by
        rw [joinWith_cons _ _ hnil]
        simp
      rw [hcut, lineTexts, lines_append_cons (hline l lead hl hlead), List.filterMap_cons_some htext,
        ← lineTexts, hrest]

/-- A line as a value has it: with a blank in front, and perhaps without white space at its end. -/
structure Echoes (line' line : Text) : Prop where
  begins : line' <+: ' ' :: line
  strip_eq : strip line' = strip line

namespace Echoes

variable {line line' : Text}

/-- A line and its echo are of one kind. -/
theorem isProse (h : Echoes line' line) (hprose : IsProse line) : IsProse line' := by
  obtain ⟨x, hx⟩ := h.begins
  refine ⟨Bool.eq_false_iff.mpr fun hfence => ?_, Bool.eq_false_iff.mpr fun hitem => ?_⟩
  · have hwhole := isFence_append hfence x
    rw [hx, isFence_cons_blank rfl, hprose.1] at hwhole
    cases hwhole
  · have hwhole := isListItem_append hitem x
    rw [hx, isListItem_cons_blank rfl, hprose.2] at hwhole
    cases hwhole

theorem markerFree (h : Echoes line' line) (hfree : MarkerFree line) : MarkerFree line' :=
  hfree.of_words_eq (by rw [← words_strip, h.strip_eq, words_strip])

/-- A line and its echo have the same Markdown. -/
theorem proseOf_eq (h : Echoes line' line) : proseOf line' = proseOf line := by
  rw [proseOf, proseOf, cleanLine, cleanLine, h.strip_eq]

/-- White space at the end of a line may go. -/
theorem of_append_spaces {sp : Text} (h : ' ' :: line = line' ++ sp) (hsp : ∀ c ∈ sp, isSpace c = true) :
    Echoes line' line := by
  have hone : ∀ c ∈ [' '], isSpace c = true := List.all_eq_true.mp rfl
  refine ⟨⟨sp, h.symm⟩, ?_⟩
  rw [← strip_append_spaces line' hsp, ← h]
  exact strip_spaces_append hone line

end Echoes

/-- A carriage return begins a continuation only before a line feed. -/
theorem continuation?_cons_eq_none {c : Char} (hn : c ≠ '\n') {s : Text} (hs : s.head? ≠ some '\n') :
    continuation? (c :: s) = none := by
  unfold continuation?
  split
  · rename_i heq
    exact absurd (List.cons.inj heq).1 hn
  · rename_i heq
    rw [(List.cons.inj heq).2] at hs
    exact absurd rfl hs
  · rfl

theorem cut_continuation_cons {c : Char} (hn : c ≠ '\n') {s : Text} (hs : s.head? ≠ some '\n') {p : Text}
    {ps : List Text} (h : cut continuation? s = p :: ps) : cut continuation? (c :: s) = (c :: p) :: ps := by
  have hrest : cutFrom continuation? 0 s = p :: ps := h
  rw [cut, cutFrom, continuation?_cons_eq_none hn hs, hrest]
  rfl

theorem head?_ne_of_notMem {c : Char} {s : Text} (h : c ∉ s) : s.head? ≠ some c := fun hhead =>
  h (List.mem_of_head? hhead)

/-- A last line stays in one piece. -/
theorem cut_continuation_lastLine {l : Text} (h : '\n' ∉ l) : cut continuation? l = [l] := by
  induction l with
  | nil => rfl
  | cons c l ih =>
    have hrest : '\n' ∉ l := fun hmem => h (List.mem_cons_of_mem c hmem)
    exact cut_continuation_cons (fun heq => h (heq ▸ List.mem_cons_self)) (head?_ne_of_notMem hrest) (ih hrest)

/-- A line before a gutter is cut off, without a carriage return at its end. -/
theorem cut_continuation_line {l : Text} (h : '\n' ∉ l) (s : Text) :
    ∃ k sp, l = k ++ sp ∧ (∀ c ∈ sp, isSpace c = true) ∧
      cut continuation? (l ++ ("\n *".toList ++ s)) = k :: cut continuation? s := by
  induction l with
  | nil => exact ⟨[], [], rfl, by simp, cut_continuation_gutter s⟩
  | cons c l ih =>
    have hc : c ≠ '\n' := fun heq => h (heq ▸ List.mem_cons_self)
    have hl : '\n' ∉ l := fun hmem => h (List.mem_cons_of_mem c hmem)
    by_cases hreturn : c = '\r' ∧ l = []
    · -- The carriage return belongs to the line ending.
      obtain ⟨rfl, rfl⟩ := hreturn
      refine ⟨[], ['\r'], rfl, List.all_eq_true.mp rfl, ?_⟩
      have hgutter : continuation? ('\r' :: '\n' :: ' ' :: '*' :: s) = some 4 := by
        have hdrop : (' ' :: '*' :: s).dropWhile isBlank = '*' :: s := rfl
        simp only [continuation?, Option.map_some, hdrop, List.length_cons, Option.some.injEq]
        omega
      change cutFrom continuation? 0 ('\r' :: '\n' :: ' ' :: '*' :: s) = _
      rw [cutFrom, hgutter]
      rfl
    · obtain ⟨k, sp, hk, hsp, hcut⟩ := ih hl
      refine ⟨c :: k, sp, by rw [hk]; rfl, hsp, ?_⟩
      cases l with
      | nil =>
        have hnr : c ≠ '\r' := fun heq => hreturn ⟨heq, rfl⟩
        obtain ⟨rfl, -⟩ := List.append_eq_nil_iff.mp hk.symm
        rw [cut_continuation_append (by simpa using hc.symm) (by simpa using hnr.symm),
          cut_continuation_gutter]
        rfl
      | cons d l =>
        refine cut_continuation_cons hc (fun hhead => hl ?_) hcut
        obtain rfl := Option.some.inj hhead
        exact List.mem_cons_self

/-- **The lines of a value** echo the lines behind the gutters. -/
theorem cut_continuation_joinWith {ls : List Text} (hne : ls ≠ []) (h : ∀ l ∈ ls, '\n' ∉ l) :
    List.Forall₂ Echoes (cut continuation? (stripEnd (' ' :: joinWith "\n * ".toList ls))) ls := by
  induction ls with
  | nil => exact absurd rfl hne
  | cons l ls ih =>
    have hl : '\n' ∉ ' ' :: l := by simpa using h l List.mem_cons_self
    by_cases hnil : ls = []
    · subst hnil
      obtain ⟨sp, hline, hsp⟩ := exists_trimEnd_append isSpace (' ' :: l)
      have hlast : '\n' ∉ stripEnd (' ' :: l) := fun hmem => hl ((trimEnd_sublist isSpace _).subset hmem)
      rw [joinWith, cut_continuation_lastLine hlast]
      exact .cons (.of_append_spaces hline hsp) .nil
    · have hstrip : stripEnd (' ' :: joinWith "\n * ".toList (l :: ls)) =
          (' ' :: l) ++ ("\n *".toList ++ stripEnd (' ' :: joinWith "\n * ".toList ls)) := by
        have hstar : ' ' :: joinWith "\n * ".toList (l :: ls) =
            (' ' :: l ++ "\n ".toList) ++ '*' :: (' ' :: joinWith "\n * ".toList ls) := by
          rw [joinWith_cons _ _ hnil]
          simp
        rw [hstar, stripEnd, trimEnd_append_cons _ _ rfl, stripEnd]
        simp
      obtain ⟨k, sp, hk, hsp, hcut⟩ := cut_continuation_line hl (stripEnd (' ' :: joinWith "\n * ".toList ls))
      rw [hstrip, hcut]
      exact .cons (.of_append_spaces hk hsp) (ih hnil fun j hj => h j (List.mem_cons_of_mem l hj))

/-! ### Writing a paragraph -/

namespace LineWrap

/-- The state after prose without markers: one paragraph of the pieces that are not empty. -/
def paragraph (ps : List Text) : LineWrap := { buffer := joinWith [' '] (ps.filter (· ≠ [])) }

/-- Behind a clean line stands a space. -/
theorem lead_of_isClean {s : Text} (h : IsClean s) : lead false s = if s = [] then [] else s ++ [' '] := by
  have hfeed : endsWith ['\n'] s = false := by
    refine Bool.eq_false_iff.mpr fun hend => ?_
    obtain ⟨front, rfl⟩ : ['\n'] <:+ s := List.isSuffixOf_iff_suffix.mp hend
    cases h.last '\n' List.getLast?_concat
  simp [lead, hfeed]

/-- **One line of prose** adds its Markdown to the paragraph. -/
theorem feed_paragraph {ps : List Text} (hps : ∀ p ∈ ps, IsClean p) {line : Text} (hprose : IsProse line)
    (hfree : MarkerFree line) : (paragraph ps).feed line = paragraph (ps ++ [proseOf line]) := by
  have hfeed : (paragraph ps).feed line = (paragraph ps).flowPiece true line := by
    rw [feed, hprose.1, hprose.2]
    simp [feedProse, flow, hfree.splitParagraphs_eq, paragraph]
  have hbreaks : (paragraph ps).breaksBefore true = false := rfl
  rw [hfeed, flowPiece_eq, hbreaks, paragraph, paragraph, List.filter_append,
    lead_of_isClean (isClean_joinWith_filter hps)]
  by_cases hempty : proseOf line = []
  · simp [hempty]
  · have hone : [proseOf line].filter (· ≠ []) = [proseOf line] :=
      List.filter_cons_of_pos (by simpa using hempty)
    rw [if_neg hempty, hone]
    cases hfilter : ps.filter (· ≠ []) with
    | nil => rfl
    | cons q qs =>
      have hmem : q ∈ ps.filter (· ≠ []) := hfilter ▸ List.mem_cons_self
      have hq : q ≠ [] := by simpa using (List.mem_filter.mp hmem).2
      rw [if_neg (joinWith_ne_nil hq), joinWith_append _ (by simp) (by simp)]
      rfl

/-- **Any lines of prose**, as a value has them, are written as one paragraph. -/
theorem foldl_feed_paragraph {ms ls : List Text} (h : List.Forall₂ Echoes ms ls)
    (hprose : ∀ l ∈ ls, IsProse l) (hfree : ∀ l ∈ ls, MarkerFree l) {ps : List Text}
    (hps : ∀ p ∈ ps, IsClean p) : ms.foldl feed (paragraph ps) = paragraph (ps ++ ls.map proseOf) := by
  induction h generalizing ps with
  | nil => simp
  | @cons m l ms ls hecho _ ih =>
    have hnext : ∀ p ∈ ps ++ [proseOf l], IsClean p := by
      intro p hp
      rcases List.mem_append.mp hp with hp | hp
      · exact hps p hp
      · obtain rfl := List.mem_singleton.mp hp
        exact isClean_proseOf l
    rw [List.foldl_cons, feed_paragraph hps (hecho.isProse (hprose l List.mem_cons_self))
        (hecho.markerFree (hfree l List.mem_cons_self)), hecho.proseOf_eq,
      ih (fun k hk => hprose k (List.mem_cons_of_mem l hk)) (fun k hk => hfree k (List.mem_cons_of_mem l hk))
        hnext]
    simp

end LineWrap

/-! ### The two agree -/

/-- **Descriptions and values agree on prose.** Lines without line feeds, none of which is a fence, a list item
or holds a paragraph marker, have the same Markdown as a description and as the value of a tag: that of the
single lines, without the empty ones, joined by spaces. -/
theorem describe_eq_valueOf_of_prose {ls : List Text} (hne : ls ≠ []) (hlines : ∀ l ∈ ls, '\n' ∉ l)
    (hprose : ∀ l ∈ ls, IsProse l) (hfree : ∀ l ∈ ls, MarkerFree l) :
    describe ("* ".toList ++ joinWith "\n * ".toList ls) =
        valueOf (" ".toList ++ joinWith "\n * ".toList ls) ∧
      valueOf (" ".toList ++ joinWith "\n * ".toList ls) =
        joinWith [' '] ((ls.map fun l => codeToMarkdown (cleanLine l)).filter (· ≠ [])) := by
  have hclean : ∀ p ∈ ls.map proseOf, IsClean p := by
    intro p hp
    obtain ⟨l, -, rfl⟩ := List.mem_map.mp hp
    exact isClean_proseOf l
  have hvalue : valueOf (" ".toList ++ joinWith "\n * ".toList ls) =
      joinWith [' '] ((ls.map proseOf).filter (· ≠ [])) := by
    have hnone : ∀ p ∈ ([] : List Text), IsClean p := by simp
    have hstate := LineWrap.foldl_feed_paragraph (cut_continuation_joinWith hne hlines) hprose hfree hnone
    rw [valueOf, LineWrap.value, LineWrap.feedAll]
    exact (congrArg (fun w => stripEnd (LineWrap.buffer w)) hstate).trans
      (trimEnd_eq_self (isClean_joinWith_filter hclean).last)
  have hdescribe : describe ("* ".toList ++ joinWith "\n * ".toList ls) =
      joinWith [' '] ((ls.map proseOf).filter (· ≠ [])) := by
    have hnone : ∀ c ∈ ([] : Text), isBlank c = true := by simp
    have htexts : lineTexts ("* ".toList ++ joinWith "\n * ".toList ls) = ls :=
      lineTexts_joinWith hne hlines hnone
    have hmarkers : ∀ p ∈ ls.map proseOf, MarkerFree p := by
      intro p hp
      obtain ⟨l, hl, rfl⟩ := List.mem_map.mp hp
      exact markerFree_proseOf (hfree l hl)
    rw [describe_of_prose (htexts.symm ▸ hprose), htexts, replaceParagraphs_joinWith hmarkers,
      cleanLine_joinWith hclean]
  exact ⟨hdescribe.trans hvalue.symm, hvalue⟩

/-- Prose with runs of spaces, a tab, a code element, a carriage return, and lines that come to nothing. -/
def roughProse : List Text :=
  ["  Reads  <code> the \t file</code>\r".toList, "".toList, " \t".toList, "line  by line, <b>-".toList, " ".toList]

/-- The lines of the sample give one paragraph, as a description and as a value. -/
theorem describe_eq_valueOf_roughProse :
    (∀ l ∈ roughProse, '\n' ∉ l ∧ IsProse l ∧ MarkerFree l) ∧
      describe ("* ".toList ++ joinWith "\n * ".toList roughProse) =
        "Reads ` the\tfile` line by line, <b>-".toList ∧
      valueOf (" ".toList ++ joinWith "\n * ".toList roughProse) =
        "Reads ` the\tfile` line by line, <b>-".toList := by
  have hlines : ∀ l ∈ roughProse, '\n' ∉ l ∧ IsProse l ∧ MarkerFree l := by decide
  have hshown : joinWith [' '] ((roughProse.map fun l => codeToMarkdown (cleanLine l)).filter (· ≠ [])) =
      "Reads ` the\tfile` line by line, <b>-".toList := by decide
  obtain ⟨hsame, hvalue⟩ := describe_eq_valueOf_of_prose (by simp [roughProse])
    (fun l hl => (hlines l hl).1) (fun l hl => (hlines l hl).2.1) (fun l hl => (hlines l hl).2.2)
  exact ⟨hlines, (hsame.trans hvalue).trans hshown, hvalue.trans hshown⟩

end DocMark.Comment
