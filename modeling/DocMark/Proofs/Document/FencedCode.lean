import DocMark.Proofs.Comment.FencedComment
import DocMark.Proofs.Document.AtSigns
import DocMark.Proofs.Source.SingleComment

/-!
Fenced code in a rendered document.

A block of code between fences, in a description or below a tag, is meant to come out as it stands.
`fenced_code_verbatim_iff` says exactly when it does: no line of the block ends in a star, begins with
an at sign, or is a marker of a blank line. A line that ends in a star gets a marker behind it, and one
that is a marker comes out empty, so what stands between the fences is not the block. A line that begins
with an at sign is taken for a tag, and its at sign is gone from the document altogether, which counting
at signs shows.
-/

namespace DocMark.Document

open Comment

def commentSource (ls : List Text) : Text :=
  "/**\n".toList ++ (ls.flatMap fun l => " * ".toList ++ l ++ ['\n']) ++ " */\nvoid f();".toList

/-- A line of code that comes out as it stands. -/
def IsKept (line : Text) : Prop :=
  line.getLast? ≠ some '*' ∧ beginsWithAt line = false ∧ isBlankMarker line = false

instance (line : Text) : Decidable (IsKept line) := by
  unfold IsKept; infer_instance

/-- Where a block of code can stand in a comment. -/
inductive Place where
  | description
  | tag

namespace Place

/-- The comment lines before the block. -/
def lead : Place → List Text
  | description => []
  | tag => ["@example".toList]

/-- The lines between the heading of the section and the block. -/
def above : Place → List Text
  | description => [[]]
  | tag => [[], " * **Example:**".toList]

/-- A line of the block as the section shows it. -/
def shown : Place → Text → Text
  | description => id
  | tag => indented

end Place

/-! ### The document of one comment -/

theorem close_infix_gutter_iff {l : Text} :
    "*/".toList <:+: " * ".toList ++ l ↔ "*/".toList <:+: l := by
  have hspace : ∀ r : Text, ¬ "*/".toList <+: ' ' :: r := by
    intro r hpre
    simp at hpre
  change "*/".toList <:+: ' ' :: '*' :: ' ' :: l ↔ _
  rw [List.infix_cons_iff, List.infix_cons_iff, List.infix_cons_iff]
  constructor
  · rintro (hpre | hpre | hpre | hin)
    · exact absurd hpre (hspace _)
    · simp at hpre
    · exact absurd hpre (hspace _)
    · exact hin
  · exact fun hin => Or.inr (Or.inr (Or.inr hin))

/-- The source has one section: its declaration, with the body of its comment. -/
theorem sections_commentSource {ls : List Text} (hn : ∀ l ∈ ls, '\n' ∉ l) (hr : ∀ l ∈ ls, '\r' ∉ l)
    (hc : ∀ l ∈ ls, ¬ "*/".toList <:+: l) :
    Source.sections (commentSource ls) = [⟨"void f()".toList, Source.docOf (gutterBody ls)⟩] := by
  have hsource : commentSource ls = Source.singleComment (gutterBody ls) "\nvoid f()".toList := by
    unfold commentSource Source.singleComment gutterBody
    simp
  have hreturn : '\r' ∉ gutterBody ls := by
    simp only [gutterBody, List.mem_cons, List.mem_append, List.mem_flatMap]
    rintro (heq | ⟨l, hl, (hmem | hmem) | hmem⟩ | hmem)
    · exact absurd heq (by decide)
    · exact absurd hmem (by decide)
    · exact hr l hl hmem
    · exact absurd hmem (by decide)
    · exact absurd hmem (by decide)
  have hclose : ¬ "*/".toList <:+: gutterBody ls := by
    rw [← Text.joinWith_lines (gutterBody ls),
      Text.infix_joinWith_iff (by decide) (Text.lines_ne_nil _), lines_gutterBody hn]
    rintro ⟨l, hl, hin⟩
    rcases List.mem_cons.mp hl with rfl | hl
    · exact absurd hin (by decide)
    · rcases List.mem_append.mp hl with hl | hl
      · obtain ⟨k, hk, rfl⟩ := List.mem_map.mp hl
        exact hc k hk (close_infix_gutter_iff.mp hin)
      · obtain rfl := List.mem_singleton.mp hl
        exact absurd hin (by decide)
  have hrun : ∀ c ∈ "\nvoid f()".toList, Source.isRunChar c = true := List.all_eq_true.mp rfl
  rw [hsource, Source.sections_singleComment hreturn (by decide) hclose (by decide) hrun
    (show ¬ Source.IsImportLine (Text.strip "\nvoid f()".toList) by decide)]
  rfl

def headings (level : Int) : Text :=
  marks level ++ " Documentation".toList ++ "\n\n".toList ++ marks (level + 1) ++
    ' ' :: Text.codeSpan "void f()".toList

/-- What holds of the document of one section holds of its headings and the body of the section. -/
theorem exists_render_iff {source doc : Text}
    (h : Source.sections source = [⟨"void f()".toList, doc⟩]) (flavor : Flavor) (level : Int)
    (P : Text → Prop) :
    (∃ r, render ⟨flavor, level⟩ source = .ok r ∧ P r.markdown) ↔
      ∃ body, sectionBody flavor doc = .ok body ∧ P (headings level ++ body ++ ['\n']) := by
  have hblock : sectionBlock flavor level ⟨"void f()".toList, doc⟩ =
      (sectionBody flavor doc).map fun body =>
        "\n\n".toList ++ marks (level + 1) ++ ' ' :: Text.codeSpan "void f()".toList ++ body := by
    unfold sectionBlock
    cases sectionBody flavor doc with
    | error e => rfl
    | ok body => rfl
  unfold render
  rw [h]
  simp only [blocks, hblock]
  cases sectionBody flavor doc with
  | error e =>
    simp [Except.map, bind, Except.bind]
  | ok body =>
    simp [Except.map, bind, Except.bind, pure, Except.pure, headings]

theorem notMem_marks {c : Char} (hc : c ≠ '#') (level : Int) : c ∉ marks level := by
  intro hmem
  simp only [marks, Text.times, List.isEmpty_cons, Bool.false_eq_true, if_false,
    List.mem_flatten, List.mem_replicate] at hmem
  obtain ⟨l, ⟨-, rfl⟩, hmem⟩ := hmem
  exact hc (List.mem_singleton.mp hmem)

/-- The headings are lines of their own, and no fences. -/
theorem lines_headings (level : Int) (s : Text) :
    ∃ pre : List Text, Text.lines (headings level ++ '\n' :: s) = pre ++ Text.lines s ∧
      ∀ l ∈ pre, l ≠ fence ∧ l ≠ indented fence := by
  have htitle : '\n' ∉ marks level ++ " Documentation".toList := by
    intro hmem
    rcases List.mem_append.mp hmem with hmem | hmem
    · exact notMem_marks (by decide) level hmem
    · exact absurd hmem (by decide)
  have hfield : '\n' ∉ marks (level + 1) ++ ' ' :: Text.codeSpan "void f()".toList := by
    intro hmem
    rcases List.mem_append.mp hmem with hmem | hmem
    · exact notMem_marks (by decide) (level + 1) hmem
    · exact absurd hmem (by decide)
  refine ⟨[marks level ++ " Documentation".toList, [],
    marks (level + 1) ++ ' ' :: Text.codeSpan "void f()".toList], ?_, ?_⟩
  · have hsplit : headings level ++ '\n' :: s = (marks level ++ " Documentation".toList) ++ '\n' ::
        ([] ++ '\n' :: ((marks (level + 1) ++ ' ' :: Text.codeSpan "void f()".toList) ++ '\n' :: s)) := by
      simp [headings]
    rw [hsplit, Text.lines_append_cons htitle, Text.lines_append_cons (by simp),
      Text.lines_append_cons hfield]
    rfl
  · -- A line is no fence if it holds a character that an indented fence does not.
    have hother : ∀ (x : Text) {y : Text} {c : Char}, c ∈ y → c ∉ indented fence →
        x ++ y ≠ fence ∧ x ++ y ≠ indented fence := by
      intro x y c hy hc
      have hmem : c ∈ x ++ y := List.mem_append_right x hy
      refine ⟨?_, ?_⟩
      · intro heq
        exact hc (List.mem_append_right indent (heq ▸ hmem))
      · intro heq
        exact hc (heq ▸ hmem)
    intro l hl
    rcases List.mem_cons.mp hl with rfl | hl
    · exact hother _ (show 'D' ∈ " Documentation".toList by decide) (by decide)
    · rcases List.mem_cons.mp hl with rfl | hl
      · exact ⟨by decide, by decide⟩
      · obtain rfl := List.mem_singleton.mp hl
        exact hother _ (show 'v' ∈ ' ' :: Text.codeSpan "void f()".toList by decide) (by decide)

/-! ### Blocks between fences -/

/-- Up to the first occurrence of an element a list is determined. -/
theorem append_cons_inj {α : Type} {f : α} {a b s t : List α} (ha : f ∉ a) (hb : f ∉ b)
    (h : a ++ f :: s = b ++ f :: t) : a = b ∧ s = t := by
  induction a generalizing b with
  | nil =>
    cases b with
    | nil => exact ⟨rfl, (List.cons.inj h).2⟩
    | cons y b => exact absurd ((List.cons.inj h).1 ▸ List.mem_cons_self) hb
  | cons x a ih =>
    cases b with
    | nil => exact absurd ((List.cons.inj h).1 ▸ List.mem_cons_self) ha
    | cons y b =>
      obtain ⟨rfl, heq⟩ := List.cons.inj h
      obtain ⟨rfl, rfl⟩ := ih (fun hmem => ha (List.mem_cons_of_mem _ hmem))
        (fun hmem => hb (List.mem_cons_of_mem _ hmem)) heq
      exact ⟨rfl, rfl⟩

/-- Where an element occurs just twice, a block between two of it is found only there. -/
theorem infix_block_iff {f : Text} {pre mid post xs : List Text} (hpre : f ∉ pre) (hmid : f ∉ mid)
    (hpost : f ∉ post) : (f :: xs ++ [f]) <:+: pre ++ (f :: mid ++ [f]) ++ post ↔ xs = mid := by
  constructor
  · rintro ⟨a, b, hab⟩
    have hcount := congrArg (List.count f) hab
    simp only [List.count_append, List.count_cons_self, List.count_eq_zero.mpr hpre,
      List.count_eq_zero.mpr hmid, List.count_eq_zero.mpr hpost] at hcount
    have ha : f ∉ a := List.count_eq_zero.mp (by omega)
    have hxs : f ∉ xs := List.count_eq_zero.mp (by omega)
    have hsplit : a ++ f :: (xs ++ f :: b) = pre ++ f :: (mid ++ f :: post) := by
      simpa using hab
    obtain ⟨-, hrest⟩ := append_cons_inj ha hpre hsplit
    exact (append_cons_inj hxs hmid hrest).1
  · rintro rfl
    exact ⟨pre, post, rfl⟩

section Block

variable {code : List Text}

/-- No written line of code is a fence. -/
theorem fence_notMem_written (h : ∀ c ∈ code, IsCode c) : fence ∉ code.map written := by
  intro hmem
  obtain ⟨c, hc, heq⟩ := List.mem_map.mp hmem
  have hfence : isFence (written c) = true := by rw [heq]; decide
  rw [← codeOf_marked, codeOf_space] at hfence
  split at hfence
  · exact absurd hfence (by decide)
  · exact absurd hfence (by simp [isFence_marked (h c hc).not_fence])

/-- **The block that was written** is the block of code if no line was changed, wherever its lines are
shown. -/
theorem map_fenced_infix_iff (h : ∀ c ∈ code, IsCode c) {g : Text → Text}
    (hg : Function.Injective g) {pre : List Text} (hpre : g fence ∉ pre) (hnil : g fence ≠ []) :
    (fenced code).map g <:+: pre ++ (fenced (code.map written)).map g ++ [[]] ↔
      ∀ c ∈ code, written c = c := by
  have hmid : g fence ∉ (code.map written).map g := by
    intro hmem
    obtain ⟨c, hc, heq⟩ := List.mem_map.mp hmem
    exact fence_notMem_written h (hg heq ▸ hc)
  have hpost : g fence ∉ [[]] := by simpa using hnil
  rw [map_fenced, map_fenced, infix_block_iff hpre hmid hpost, (List.map_injective_iff.mpr hg).eq_iff]
  conv_lhs => rw [← List.map_id code, List.map_map, List.map_inj_left]
  exact forall₂_congr fun c _ => eq_comm

end Block

/-! ### Blocks without at signs -/

/-- Every flavor shows an example as it is written. -/
theorem addTags_example (flavor : Flavor) (value : Text) :
    flavor.addTags [⟨"example".toList, value⟩] = .ok [⟨"Example".toList, [some value]⟩] := by
  have hhandling : flavor.handling? "example".toList = some ("Example".toList, .text) := by
    obtain ⟨name, kind⟩ := flavor
    cases kind with
    | base => rfl
    | static => rfl
    | dynamic style => rfl
  simp only [Flavor.addTags, List.foldlM_cons, List.foldlM_nil, Flavor.addTag, hhandling]
  rfl

/-- **The body of a section with a block of code** that has no at sign at the head of a line. -/
theorem sectionBody_block {code : List Text} (h : ∀ c ∈ code, IsCode c)
    (hat : ∀ c ∈ code, beginsWithAt c = false) (place : Place) (flavor : Flavor) :
    sectionBody flavor (Source.docOf (gutterBody (place.lead ++ fenced code))) =
      .ok ('\n' :: Text.joinWith ['\n']
        (place.above ++ (fenced (code.map written)).map place.shown)) := by
  have hne : ∀ g : Text → Text, (fenced (code.map written)).map g ≠ [] := by simp [fenced]
  cases place with
  | description =>
    have hempty : (Text.joinWith ['\n'] (fenced (code.map written))).isEmpty = false := by
      rw [fenced, Text.joinWith_concat]
      rfl
    rw [Place.lead, List.nil_append, sectionBody_eq, parse_fenced h hat, Place.above, Place.shown,
      List.singleton_append, Text.joinWith_cons _ _ (hne id), List.map_id]
    change Except.ok ((if (Text.joinWith ['\n'] (fenced (code.map written))).isEmpty then []
      else "\n\n".toList ++ Text.joinWith ['\n'] (fenced (code.map written))) ++ []) = _
    rw [hempty, List.append_nil]
    rfl
  | tag =>
    rw [Place.lead, List.singleton_append, sectionBody_eq, parse_example h hat, addTags_example,
      Place.above, Place.shown, List.cons_append, List.singleton_append,
      Text.joinWith_cons _ _ (List.cons_ne_nil _ _), Text.joinWith_cons _ _ (hne indented)]
    change Except.ok ('\n' :: TagGroups.render [_]) = _
    rw [TagGroups.render, List.flatMap_singleton]
    rfl

/-! ### Blocks with at signs -/

section Ats

variable {ls : List Text}

theorem count_marked (l : Text) : (marked l).count '@' = l.count '@' := by
  rcases marked_cases l with ⟨rfl, hl⟩ | ⟨-, hl⟩ | ⟨-, -, hl⟩
  · rw [hl]
    decide
  · rw [hl, List.count_append]
    rfl
  · rw [hl]

theorem count_gutterBody (ls : List Text) : (gutterBody ls).count '@' = ls.flatten.count '@' := by
  induction ls with
  | nil => rfl
  | cons l ls ih =>
    rw [gutterBody_cons, List.count_cons_of_ne (by decide), List.append_assoc, List.count_append,
      List.count_append, ih, List.flatten_cons, List.count_append]
    exact Nat.zero_add _

/-- A section lacks one at sign for every line that begins with one. -/
theorem count_body_le (hne : ls ≠ []) (hn : ∀ l ∈ ls, '\n' ∉ l)
    (ht : ∀ l ∈ ls, l.getLast?.any Text.isSpace = false) {flavor : Flavor} {body : Text}
    (hbody : sectionBody flavor (Source.docOf (gutterBody ls)) = .ok body) :
    body.count '@' + (ls.filter beginsWithAt).length ≤ ls.flatten.count '@' := by
  have hmarked : ∀ l ∈ ls.map marked, '\n' ∉ l := by
    intro l hl
    obtain ⟨k, hk, rfl⟩ := List.mem_map.mp hl
    exact notMem_marked (by decide) (hn k hk)
  have hcount : (ls.map marked).flatten.count '@' = ls.flatten.count '@' := by
    rw [List.count_flatten, List.count_flatten, List.map_map]
    exact congrArg List.sum (List.map_congr_left fun l _ => count_marked l)
  have htags : ((Text.lines (gutterBody (ls.map marked))).filter isTagLine).length =
      (ls.filter beginsWithAt).length := by
    have hsame : ((isTagLine ∘ (" * ".toList ++ ·)) ∘ marked) = beginsWithAt := by
      funext l
      exact (isTagLine_gutter (marked l)).trans (beginsWithAt_marked l)
    rw [lines_gutterBody hmarked, List.filter_cons_of_neg (by decide), List.filter_append,
      List.filter_map, List.filter_map, hsame, List.length_append, List.length_map, List.length_map]
    rfl
  have hle := count_sectionBody_le hbody
  rw [docOf_gutterBody hne hn ht, count_gutterBody, hcount, htags] at hle
  exact hle

/-- Lines that are found in a document hold no more at signs than the body of its section. -/
theorem count_le_of_infix {level : Int} {body : Text}
    (h : ls <:+: Text.lines (headings level ++ body ++ ['\n'])) :
    ls.flatten.count '@' ≤ body.count '@' := by
  have hheadings : '@' ∉ headings level := by
    simp only [headings, List.mem_append, not_or]
    exact ⟨⟨⟨⟨notMem_marks (by decide) level, by decide⟩, by decide⟩,
      notMem_marks (by decide) (level + 1)⟩, by decide⟩
  obtain ⟨a, b, hab⟩ := h
  have hlines := Text.count_flatten_lines (a := '@') (by decide) (headings level ++ body ++ ['\n'])
  rw [← hab] at hlines
  simp only [List.flatten_append, List.count_append, List.count_eq_zero_of_not_mem hheadings] at hlines
  have hfeed : List.count '@' ['\n'] = 0 := rfl
  omega

end Ats

/-! ### Places -/

namespace Place

theorem count_shown (place : Place) (l : Text) : (place.shown l).count '@' = l.count '@' := by
  cases place with
  | description => rfl
  | tag =>
    simp only [shown, indented]
    split
    · rename_i hnil
      rw [List.isEmpty_iff.mp hnil]
    · rw [List.count_append]
      exact Nat.zero_add _

/-- Different lines are shown differently. -/
theorem shown_injective (place : Place) : Function.Injective place.shown := by
  cases place with
  | description => exact Function.injective_id
  | tag =>
    have hne : ∀ l, indent ++ l ≠ [] := List.append_ne_nil_of_left_ne_nil (by decide)
    intro a b h
    simp only [shown, indented] at h
    split at h
    · rename_i ha
      split at h
      · rename_i hb
        rw [List.isEmpty_iff.mp ha, List.isEmpty_iff.mp hb]
      · exact absurd h.symm (hne b)
    · split at h
      · exact absurd h (hne a)
      · exact List.append_cancel_left h

theorem newline_notMem_shown (place : Place) {l : Text} (h : '\n' ∉ l) : '\n' ∉ place.shown l := by
  cases place with
  | description => exact h
  | tag =>
    simp only [shown, indented]
    split
    · simp
    · intro hmem
      rcases List.mem_append.mp hmem with hmem | hmem
      · exact absurd hmem (by decide)
      · exact h hmem

theorem shown_fence (place : Place) :
    place.shown fence = fence ∨ place.shown fence = indented fence := by
  cases place with
  | description => exact Or.inl rfl
  | tag => exact Or.inr rfl

/-- The lines above a block are neither fences nor do they hold line feeds. -/
theorem above_lines (place : Place) : ∀ l ∈ place.above, '\n' ∉ l ∧ l ≠ place.shown fence := by
  cases place with
  | description => decide
  | tag => decide

/-- All at signs before a block are those of tags. -/
theorem count_lead (place : Place) :
    place.lead.flatten.count '@' = (place.lead.filter beginsWithAt).length := by
  cases place with
  | description => rfl
  | tag => rfl

/-- The lines of a comment with a block of code can stand in a comment. -/
theorem isCommentLine_block (place : Place) {code : List Text} (h : ∀ c ∈ code, IsCode c) :
    ∀ l ∈ place.lead ++ fenced code, IsCommentLine l := by
  have htag : IsCommentLine "@example".toList :=
    isCommentLine_of_slash (by decide) (by decide) (by decide) (by decide)
  have hfence : IsCommentLine fence :=
    isCommentLine_of_slash (by decide) (by decide) (by decide) (by decide)
  have hcode := forall_mem_fenced hfence fun c hc => (h c hc).toIsCommentLine
  cases place with
  | description => exact hcode
  | tag => exact List.forall_mem_cons.mpr ⟨htag, hcode⟩

end Place

/-! ### The condition -/

theorem isKept_iff {c : Text} (hat : beginsWithAt c = false) : IsKept c ↔ written c = c := by
  rw [written_eq_self_iff, IsKept]
  exact ⟨fun h => ⟨h.1, h.2.2⟩, fun h => ⟨h.1, hat, h.2⟩⟩

section Verbatim

variable {code : List Text} (h : ∀ c ∈ code, IsCode c) (place : Place) (flavor : Flavor) (level : Int)
include h

/-- No line of a written block holds a line feed. -/
theorem newline_notMem_block :
    ∀ l ∈ place.above ++ (fenced (code.map written)).map place.shown, '\n' ∉ l := by
  have hwritten : ∀ l ∈ fenced (code.map written), '\n' ∉ l := by
    refine forall_mem_fenced (by decide) fun l hl => ?_
    obtain ⟨c, hc, rfl⟩ := List.mem_map.mp hl
    have hmarked : '\n' ∉ marked c := notMem_marked (by decide) (h c hc).no_newline
    rw [← codeOf_marked, codeOf_space]
    split
    · simp
    · exact hmarked
  intro l hl
  rcases List.mem_append.mp hl with hl | hl
  · exact (place.above_lines l hl).1
  · obtain ⟨k, hk, rfl⟩ := List.mem_map.mp hl
    exact place.newline_notMem_shown (hwritten k hk)

/-- The document of a comment with a block that has no at sign at the head of a line: the block as it is
written, between lines that are no fences. -/
theorem lines_document : ∃ pre : List Text, place.shown fence ∉ pre ∧
    Text.lines (headings level ++ '\n' :: Text.joinWith ['\n']
        (place.above ++ (fenced (code.map written)).map place.shown) ++ ['\n']) =
      pre ++ (fenced (code.map written)).map place.shown ++ [[]] := by
  obtain ⟨pre, hlines, hpre⟩ := lines_headings level (Text.joinWith ['\n']
    (place.above ++ (fenced (code.map written)).map place.shown) ++ ['\n'])
  refine ⟨pre ++ place.above, ?_, ?_⟩
  · intro hmem
    rcases List.mem_append.mp hmem with hmem | hmem
    · rcases place.shown_fence with heq | heq
      · exact (hpre _ hmem).1 heq
      · exact (hpre _ hmem).2 heq
    · exact (place.above_lines _ hmem).2 rfl
  · rw [List.append_assoc, List.cons_append, hlines, Text.lines_append_newline,
      Text.lines_joinWith (by simp [fenced]) (newline_notMem_block h place)]
    simp [Text.lines, Text.splitAt]

/-- A block with a line that begins with an at sign is not found: that at sign is gone. -/
theorem not_infix_of_at (hat : ∃ c ∈ code, beginsWithAt c = true) {body : Text}
    (hbody : sectionBody flavor (Source.docOf (gutterBody (place.lead ++ fenced code))) = .ok body) :
    ¬ (fenced code).map place.shown <:+: Text.lines (headings level ++ body ++ ['\n']) := by
  intro hin
  have hcount : ((fenced code).map place.shown).flatten.count '@' =
      (fenced code).flatten.count '@' := by
    rw [List.count_flatten, List.count_flatten, List.map_map]
    exact congrArg List.sum (List.map_congr_left fun l _ => place.count_shown l)
  have htag : 0 < ((fenced code).filter beginsWithAt).length := by
    obtain ⟨c, hc, hcat⟩ := hat
    apply List.length_pos_of_mem (a := c)
    exact List.mem_filter.mpr ⟨by simp [fenced, hc], hcat⟩
  have hline := place.isCommentLine_block h
  have hle := count_body_le (by simp [fenced]) (fun l hl => (hline l hl).no_newline)
    (fun l hl => (hline l hl).trimmed) hbody
  have hge := count_le_of_infix hin
  have hlead := place.count_lead
  rw [List.filter_append, List.length_append, List.flatten_append, List.count_append] at hle
  omega

/-- The condition for one place. -/
theorem verbatim_iff :
    (∃ r, render ⟨flavor, level⟩ (commentSource (place.lead ++ fenced code)) = .ok r ∧
        (fenced code).map place.shown <:+: Text.lines r.markdown) ↔ ∀ c ∈ code, IsKept c := by
  have hline := place.isCommentLine_block h
  have hsections := sections_commentSource (fun l hl => (hline l hl).no_newline)
    (fun l hl => (hline l hl).no_return) (fun l hl => (hline l hl).no_close)
  rw [exists_render_iff hsections flavor level ((fenced code).map place.shown <:+: Text.lines ·)]
  by_cases hat : ∀ c ∈ code, beginsWithAt c = false
  · obtain ⟨pre, hpre, hlines⟩ := lines_document h place level
    have hblock := map_fenced_infix_iff h place.shown_injective hpre (by cases place <;> decide)
    rw [sectionBody_block h hat place flavor]
    constructor
    · rintro ⟨body, hbody, hin⟩ c hc
      obtain rfl := Except.ok.inj hbody
      rw [hlines, hblock] at hin
      exact (isKept_iff (hat c hc)).mpr (hin c hc)
    · intro hkept
      refine ⟨_, rfl, ?_⟩
      rw [hlines, hblock]
      exact fun c hc => (isKept_iff (hat c hc)).mp (hkept c hc)
  · obtain ⟨c, hc, hcat⟩ : ∃ c ∈ code, beginsWithAt c = true := by
      by_contra hnone
      exact hat fun c hc => Bool.eq_false_iff.mpr fun hcat => hnone ⟨c, hc, hcat⟩
    constructor
    · rintro ⟨body, hbody, hin⟩
      exact absurd hin (not_infix_of_at h place flavor level ⟨c, hc, hcat⟩ hbody)
    · intro hkept
      exact absurd (hkept c hc).2.1 (by simp [hcat])

end Verbatim

/-- **Fenced code comes out verbatim exactly when every line of it is kept.** A block of code between
fences, in the description of a comment or below a tag, is found line by line in the document that is
rendered from the comment, in every flavor and at every heading level, if and only if no line of it ends
in a star, begins with an at sign, or is a marker of a blank line. Below a tag the lines that are not
empty are indented. -/
theorem fenced_code_verbatim_iff {code : List Text} (h : ∀ c ∈ code, IsCode c) (flavor : Flavor)
    (level : Int) :
    ((∃ r, render ⟨flavor, level⟩ (commentSource (fenced code)) = .ok r ∧
        fenced code <:+: Text.lines r.markdown) ↔ ∀ c ∈ code, IsKept c) ∧
    ((∃ r, render ⟨flavor, level⟩ (commentSource ("@example".toList :: fenced code)) = .ok r ∧
        (fenced code).map indented <:+: Text.lines r.markdown) ↔ ∀ c ∈ code, IsKept c) := by
  have hdescription := verbatim_iff h .description flavor level
  rw [Place.shown, List.map_id] at hdescription
  exact ⟨hdescription, verbatim_iff h .tag flavor level⟩

/-- Code that looks like list items, with an empty line, is found below a tag; an annotation, and a
pointer type at the end of a line, are not found in a description. -/
theorem fenced_code_verbatim_samples :
    (∀ c ∈ ["* a;".toList, [], "- b".toList], IsCode c) ∧
    (∃ r, render ⟨Flavor.jsdoc, 2⟩
        (commentSource ("@example".toList :: fenced ["* a;".toList, [], "- b".toList])) = .ok r ∧
      (fenced ["* a;".toList, [], "- b".toList]).map indented <:+: Text.lines r.markdown) ∧
    (∀ line ∈ ["@Override".toList, "int *".toList], IsCode line ∧
      ¬ ∃ r, render ⟨Flavor.javadoc, 1⟩ (commentSource (fenced [line])) = .ok r ∧
        fenced [line] <:+: Text.lines r.markdown) := by
  have hcode : ∀ line ∈ ["* a;".toList, [], "- b".toList, "@Override".toList, "int *".toList],
      IsCode line := by
    intro line hline
    have hchars : '/' ∉ line ∧ '\n' ∉ line ∧ '\r' ∉ line ∧
        line.getLast?.any Text.isSpace = false ∧ isFence line = false := by
      revert line
      decide
    obtain ⟨hslash, hn, hr, ht, hf⟩ := hchars
    exact ⟨isCommentLine_of_slash hslash hn hr ht, hf⟩
  have hitems : ∀ c ∈ ["* a;".toList, [], "- b".toList], IsCode c := by
    intro c hc
    exact hcode c (List.mem_append_left ["@Override".toList, "int *".toList] hc)
  refine ⟨hitems, (fenced_code_verbatim_iff hitems Flavor.jsdoc 2).2.mpr (by decide), ?_⟩
  intro line hline
  have hone : IsCode line :=
    hcode line (List.mem_append_right ["* a;".toList, [], "- b".toList] hline)
  have hlost : ∀ l ∈ ["@Override".toList, "int *".toList], ¬ ∀ c ∈ [l], IsKept c := by decide
  refine ⟨hone, fun hfound => hlost line hline ?_⟩
  exact (fenced_code_verbatim_iff (by simpa using hone) Flavor.javadoc 1).1.mp hfound

end DocMark.Document
