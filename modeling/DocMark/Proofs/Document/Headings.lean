import DocMark.Proofs.Document.Totality
import DocMark.Proofs.Source.Extraction
import DocMark.Proofs.Text.Ink

/-!
The headings of a document.

A document is its title, a block for every section in order, and a line feed (`render_eq`). The block of a
section without a declaration is empty. Any other block is a heading and a body: the heading has one mark
more than the title and one for every class-like declaration before it, and the body is made from the
comment alone. So another level changes the marks of the headings and nothing else
(`render_heading_depth`).
-/

namespace DocMark

open Text

/-- The declaration of a section is trimmed and was cut before the first brace or semicolon, so a heading
shows all of it, and shows nothing only where there is nothing. -/
theorem Source.headline_of_mem_sections {source : Text} {s : Section} (hs : s ∈ sections source) :
    headline s.line = cleanSingleLine s.line ∧ (cleanSingleLine s.line = [] ↔ s.line = []) := by
  obtain ⟨spans, h⟩ := exists_leftmost (normalizeNewlines source) 0
  rw [sections_eq_of_leftmost h] at hs
  obtain ⟨span, hspan, rfl⟩ := List.mem_map.mp hs
  have hcomment := h.isComment (List.mem_filter.mp hspan).1
  refine ⟨?_, ?_⟩
  · rw [headline, List.takeWhile_eq_self_iff.mpr]
    intro c hc
    have hmem : c ∈ span.run (normalizeNewlines source) := (strip_sublist _).subset hc
    rw [hcomment.run_eq] at hmem
    have hrun : isRunChar c = true := List.mem_takeWhile_imp hmem
    simp only [isRunChar, Bool.and_eq_true] at hrun ⊢
    exact hrun.1
  · have hline : (span.toSection (normalizeNewlines source)).line =
        strip (span.run (normalizeNewlines source)) := rfl
    rw [cleanSingleLine, List.map_eq_nil_iff, cleanLine_eq_nil_iff, hline, ink_strip,
      strip_eq_nil_iff]

namespace Document

/-! ### Blocks -/

def classesBefore (ss : List Section) (i : Nat) : Nat :=
  (ss.take i).countP fun s => Source.isClassLike s.line

/-- The block of a section: nothing without a declaration, else a heading with the given marks and the
body of the comment. -/
def headed (hashes : Text) (body : Text → Text) (s : Section) : Text :=
  if s.line = [] then []
  else "\n\n".toList ++ hashes ++ ' ' :: codeSpan (cleanSingleLine s.line) ++ body s.doc

def headedBlocks (level : Int) (body : Text → Text) (ss : List Section) : List Text :=
  ss.mapIdx fun i s => headed (marks (level + 1 + classesBefore ss i)) body s

theorem headed_eq_nil_iff {hashes : Text} {body : Text → Text} {s : Section} :
    headed hashes body s = [] ↔ s.line = [] := by
  simp [headed]

theorem classesBefore_cons_succ (s : Section) (ss : List Section) (i : Nat) :
    classesBefore (s :: ss) (i + 1) =
      (if Source.isClassLike s.line then 1 else 0) + classesBefore ss i := by
  rw [classesBefore, classesBefore, List.take_succ_cons, List.countP_cons, Nat.add_comm]

/-- The first section is headed below the title, and the others below it if it is a class. -/
theorem headedBlocks_cons (level : Int) (body : Text → Text) (s : Section) (ss : List Section) :
    headedBlocks level body (s :: ss) = headed (marks (level + 1)) body s ::
      headedBlocks (if Source.isClassLike s.line then level + 1 else level) body ss := by
  rw [headedBlocks, headedBlocks, List.mapIdx_cons]
  congr 1
  · simp [classesBefore]
  · apply congrArg (List.mapIdx · ss)
    funext i t
    rw [classesBefore_cons_succ]
    split
    · rw [Int.natCast_add, ← Int.add_assoc, Int.natCast_one]
    · rw [Nat.zero_add]

section Blocks

variable {f : Flavor} {body : Text → Text}

/-- The block of a section is its heading and its body. -/
theorem sectionBlock_eq (hbody : ∀ doc, sectionBody f doc = .ok (body doc)) {source : Text}
    {s : Section} (hs : s ∈ Source.sections source) (level : Int) :
    sectionBlock f level s = .ok (headed (marks (level + 1)) body s) := by
  obtain ⟨hline, hnil⟩ := Source.headline_of_mem_sections hs
  unfold sectionBlock
  rw [hline, headed]
  split
  · rename_i hempty
    rw [if_pos (hnil.mp hempty)]
  · rename_i hshown
    rw [if_neg (fun hempty => hshown (hnil.mpr hempty)), hbody]
    rfl

/-- **What the blocks of a source are**, one section after another. -/
theorem blocks_eq (hbody : ∀ doc, sectionBody f doc = .ok (body doc)) {source : Text}
    {ss : List Section} (hss : ∀ s ∈ ss, s ∈ Source.sections source) (level : Int) :
    blocks f level ss = .ok (headedBlocks level body ss) := by
  induction ss generalizing level with
  | nil => rfl
  | cons s ss ih =>
    have hblock := sectionBlock_eq hbody (hss s List.mem_cons_self) level
    have hothers := ih fun t ht => hss t (List.mem_cons_of_mem s ht)
    rw [blocks, hblock, headedBlocks_cons]
    simp only [bind, Except.bind, hothers]
    rfl

/-- There is one block for each section with a declaration. -/
theorem length_filter_headedBlocks (level : Int) (body : Text → Text) (ss : List Section) :
    ((headedBlocks level body ss).filter (· ≠ [])).length = ss.countP (·.line ≠ []) := by
  induction ss generalizing level with
  | nil => rfl
  | cons s ss ih =>
    rw [headedBlocks_cons, ← List.countP_eq_length_filter, List.countP_cons, List.countP_cons,
      List.countP_eq_length_filter, ih]
    simp only [ne_eq, headed_eq_nil_iff]

/-- **A document is its title, its blocks and a line feed.** -/
theorem render_eq (hbody : ∀ doc, sectionBody f doc = .ok (body doc)) (level : Int) (source : Text) :
    render ⟨f, level⟩ source = .ok
      { markdown := marks level ++ " Documentation".toList ++
          (headedBlocks level body (Source.sections source)).flatten ++ ['\n']
        flavor := f.name
        headingLevel := level
        totalSections := (Source.sections source).length
        renderedSections := (Source.sections source).countP (·.line ≠ []) } := by
  have hblocks := blocks_eq hbody (fun s (hs : s ∈ Source.sections source) => hs) level
  unfold render
  simp only [hblocks, bind, Except.bind, length_filter_headedBlocks]
  rfl

end Blocks

/-- **Every text can be rendered**, at any heading level, if the flavor says how types are written. -/
theorem exists_render {f : Flavor} (hf : f.IsSpecified) (level : Int) (source : Text) :
    ∃ r, render ⟨f, level⟩ source = .ok r := by
  choose body hbody using exists_sectionBody hf
  exact ⟨_, render_eq hbody level source⟩

/-! ### Levels -/

theorem marks_natCast (n : Nat) : marks n = List.replicate n '#' := by
  simp [marks, times, List.flatten_replicate_singleton]

/-- A block with `d` more marks in its heading. -/
def deepen (d : Nat) : Text → Text
  | '\n' :: '\n' :: r => '\n' :: '\n' :: (List.replicate d '#' ++ r)
  | block => block

theorem deepen_headed (d : Nat) (hashes : Text) (body : Text → Text) (s : Section) :
    deepen d (headed hashes body s) = headed (List.replicate d '#' ++ hashes) body s := by
  unfold headed
  split
  · rfl
  · change '\n' :: '\n' :: (List.replicate d '#' ++ _) = _
    simp

/-- A deeper title makes every heading as much deeper. -/
theorem map_deepen_headedBlocks (n d : Nat) (body : Text → Text) (ss : List Section) :
    (headedBlocks n body ss).map (deepen d) = headedBlocks (n + d : Nat) body ss := by
  have hmarks : ∀ k : Nat, List.replicate d '#' ++ marks ((n : Int) + 1 + k) =
      marks ((n + d : Nat) + 1 + k) := by
    intro k
    have hn : (n : Int) + 1 + k = (n + 1 + k : Nat) := by simp
    have hd : ((n + d : Nat) : Int) + 1 + k = (d + (n + 1 + k) : Nat) := by omega
    rw [hn, hd, marks_natCast, marks_natCast, List.replicate_append_replicate]
  apply List.ext_getElem?
  intro i
  rw [headedBlocks, headedBlocks, List.getElem?_map, List.getElem?_mapIdx, List.getElem?_mapIdx,
    Option.map_map]
  congr 1
  funext s
  rw [Function.comp_apply, deepen_headed, hmarks]

/-- **Heading depth is exact, and the level changes nothing else.** In every flavor the rest of a block is
made from its comment alone. At the level `n`, a document is a title with `n` marks, the blocks of its
sections and a line feed. The block of a section without a declaration is empty, and any other has `n + 1`
marks and one more for every class-like declaration before it. All sections are counted, and those with a
declaration are counted as rendered. At the level `n + d` there are `d` more marks in the title and in the
heading of every block. -/
theorem render_heading_depth {f : Flavor} (hf : f.IsSpecified) :
    ∃ body : Text → Text, (∀ doc, sectionBody f doc = .ok (body doc)) ∧
      ∀ (source : Text) (n : Nat),
        let ss := Source.sections source
        let blocks := ss.mapIdx fun i s =>
          headed (List.replicate (n + 1 + classesBefore ss i) '#') body s
        let title := List.replicate n '#' ++ " Documentation".toList
        render ⟨f, n⟩ source = .ok
          { markdown := title ++ blocks.flatten ++ ['\n']
            flavor := f.name
            headingLevel := n
            totalSections := ss.length
            renderedSections := ss.countP (·.line ≠ []) } ∧
        (∀ (i : Nat) (s : Section), ss[i]? = some s → (blocks[i]? = some [] ↔ s.line = [])) ∧
        ∀ d : Nat, ∃ r, render ⟨f, (n + d : Nat)⟩ source = .ok r ∧
          r.markdown =
            List.replicate d '#' ++ title ++ (blocks.map (deepen d)).flatten ++ ['\n'] := by
  choose body hbody using exists_sectionBody hf
  refine ⟨body, hbody, ?_⟩
  intro source n ss blocks title
  have hblocks : blocks = headedBlocks n body ss := by
    simp only [blocks, headedBlocks, ← marks_natCast, Int.natCast_add, Int.natCast_one]
  have htitle : ∀ k : Nat, List.replicate k '#' ++ title =
      marks (n + k : Nat) ++ " Documentation".toList := by
    intro k
    rw [marks_natCast, Nat.add_comm n k, ← List.replicate_append_replicate, List.append_assoc]
  refine ⟨?_, ?_, ?_⟩
  · rw [render_eq hbody, hblocks]
    simp only [title, marks_natCast, ss]
  · intro i s hs
    rw [List.getElem?_mapIdx, hs, Option.map_some, Option.some.injEq, headed_eq_nil_iff]
  · intro d
    refine ⟨_, render_eq hbody _ source, ?_⟩
    rw [hblocks, map_deepen_headedBlocks, htitle]

/-- A class, a field in it, and a comment without a declaration. -/
def classSource : Text := "/** A. */ class A \x7b /** B. */ int b; /** C. */ ;".toList

theorem render_heading_depth_class :
    Flavor.jsdoc.IsSpecified ∧
      ∃ (body : Text → Text) (r : Rendered), render ⟨Flavor.jsdoc, 2⟩ classSource = .ok r ∧
        r.markdown = "## Documentation".toList ++ ("\n\n### `class A`".toList ++ body "* A. ".toList) ++
          ("\n\n#### `int b`".toList ++ body "* B. ".toList) ++ ['\n'] ∧
        r.totalSections = 3 ∧ r.renderedSections = 2 := by
  have hjsdoc : Flavor.jsdoc.IsSpecified := by
    intro hkind
    cases hkind
  have hsections : Source.sections classSource =
      [⟨"class A".toList, "* A. ".toList⟩, ⟨"int b".toList, "* B. ".toList⟩, ⟨[], "* C. ".toList⟩] := by
    decide
  obtain ⟨body, -, hrender⟩ := render_heading_depth hjsdoc
  obtain ⟨hr, -, -⟩ := hrender classSource 2
  rw [hsections] at hr
  refine ⟨hjsdoc, body, _, hr, ?_, rfl, rfl⟩
  change "## Documentation".toList ++ List.flatten ["\n\n### `class A`".toList ++ body "* A. ".toList,
    "\n\n#### `int b`".toList ++ body "* B. ".toList, []] ++ ['\n'] = _
  rw [List.flatten_cons, List.flatten_cons, List.flatten_cons, List.flatten_nil, List.append_nil,
    List.append_nil, ← List.append_assoc "## Documentation".toList]

end Document

end DocMark
