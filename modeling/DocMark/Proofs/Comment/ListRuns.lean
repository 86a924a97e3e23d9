import DocMark.Proofs.Comment.FencedValue
import DocMark.Proofs.Comment.LineKinds
import DocMark.Proofs.Comment.Prose
import DocMark.Proofs.Comment.WrapInk

/-!
Lists in the value of a tag.

Empty lines are written in four places: when a list is closed, when a block is started, for a pending
paragraph break, and at the start of a line. They never add up, because outside of fenced blocks a buffer ends
in ink with at most two line feeds behind it, and with exactly one if a list is open (`neat_feedAll`). Each of
the four only fills up to one empty line. And what is written stays: later lines may take away white space at
the end of the buffer, but put back the line feed behind the last ink (`prefix_foldl_feed`).

So a run of list items is a block of consecutive lines of the value with one empty line above and below it
(`exists_listLayout`).
-/

namespace DocMark.Comment.LineWrap

open Text

/-! ### How buffers end -/

/-- Nothing is written yet, or there is ink with no, one or two line feeds behind it. -/
inductive NeatEnd : Text → Prop where
  | nothing : NeatEnd []
  | text {core : Text} : EndsInInk core → NeatEnd core
  | line {core : Text} : EndsInInk core → NeatEnd (core ++ ['\n'])
  | gap {core : Text} : EndsInInk core → NeatEnd (core ++ "\n\n".toList)

/-- The buffer ends neatly, and right behind the item if a list is open. -/
structure Neat (w : LineWrap) : Prop where
  ending : NeatEnd w.buffer
  item : w.listBlock = true → ∃ core, EndsInInk core ∧ w.buffer = core ++ ['\n']

theorem NeatEnd.tidy {s : Text} (h : NeatEnd s) : Tidy s := by
  cases h with
  | nothing => exact tidy_nil
  | text hcore => exact tidy_of_endsInInk hcore
  | line hcore => exact (tidy_of_endsInInk hcore).newline
  | @gap core hcore =>
    have htwo := (tidy_of_endsInInk hcore).newline.newline
    rwa [List.append_assoc] at htwo

/-- Trimmed, a neat text ends in ink. -/
theorem NeatEnd.endsInInk_stripEnd {s : Text} (h : NeatEnd s) (hne : s ≠ []) : EndsInInk (stripEnd s) := by
  cases h with
  | nothing => exact absurd rfl hne
  | text hcore => rwa [hcore.stripEnd_eq]
  | line hcore => rwa [hcore.stripEnd_append_spaces (List.all_eq_true.mp rfl)]
  | gap hcore => rwa [hcore.stripEnd_append_spaces (List.all_eq_true.mp rfl)]

/-- The buffer with the list closed that may be open. -/
def closed (w : LineWrap) : Text := if w.listBlock then w.buffer ++ ['\n'] else w.buffer

theorem Neat.closed {w : LineWrap} (h : w.Neat) : NeatEnd w.closed := by
  unfold LineWrap.closed
  split
  · rename_i hlist
    obtain ⟨core, hcore, hbuffer⟩ := h.item hlist
    rw [hbuffer, List.append_assoc]
    exact .gap hcore
  · exact h.ending

theorem feedProse_eq (w : LineWrap) (line : Text) :
    w.feedProse line = flow { w with listBlock := false, newList := false, buffer := w.closed } line := rfl

/-- Prose keeps the end of the buffer neat. -/
theorem neatEnd_flow {w : LineWrap} (h : NeatEnd w.buffer) (line : Text) : NeatEnd (w.flow line).buffer := by
  refine flow_induction (P := fun v => NeatEnd v.buffer) (fun v first piece _ hv => ?_) h
  rw [flowPiece_eq]
  split
  · exact hv
  · rename_i hprose
    exact .text ((endsInInk_proseOf hprose).append _)

theorem neatEnd_ownLine {line : Text} (h : ink line ≠ []) (s : Text) :
    NeatEnd (s ++ indent ++ strip line ++ ['\n']) :=
  .line ((endsInInk_strip h).append _)

/-- **One line** keeps buffers neat outside of fenced blocks. -/
theorem neat_feed {w : LineWrap} (h : w.codeBlock = false → w.Neat) (line : Text)
    (hout : (w.feed line).codeBlock = false) : (w.feed line).Neat := by
  unfold feed at hout ⊢
  split at hout
  · rename_i hfence
    rw [if_pos hfence]
    exact ⟨neatEnd_ownLine (ink_ne_nil_of_isFence hfence) _, fun hlist => absurd hlist (by simp [feedFence])⟩
  · rename_i hfence
    rw [if_neg hfence]
    split at hout
    · rename_i hcode
      rw [feedCode_eq] at hout
      exact absurd (hcode.symm.trans hout) (by simp)
    · rename_i hcode
      rw [if_neg hcode]
      split
      · rename_i hitem
        have hink := ink_ne_nil_of_isListItem hitem
        exact ⟨neatEnd_ownLine hink _, fun _ => ⟨_, (endsInInk_strip hink).append _, rfl⟩⟩
      · rw [feedProse_eq]
        refine ⟨neatEnd_flow (h (by simpa using hcode)).closed line, fun hlist => ?_⟩
        rw [(flags_flow _ line).2] at hlist
        cases hlist

/-- **Any lines** leave a neat buffer, unless the last fence is open. -/
theorem neat_feedAll (ls : List Text) (hout : (feedAll ls).codeBlock = false) : (feedAll ls).Neat := by
  refine List.foldlRecOn ls feed (motive := fun w => w.codeBlock = false → w.Neat) (fun _ => ?_) ?_ hout
  · exact ⟨.nothing, fun hlist => absurd hlist (by simp)⟩
  · exact fun _ hw line _ => neat_feed hw line

/-! ### Starting a list -/

/-- Behind ink, a block starts with the text, a line feed and an empty line, whatever line feeds are there. -/
theorem startBlock_of_lineStart {core s : Text} (h : EndsInInk core) (hs : startLine s = core ++ ['\n']) :
    startBlock s = core ++ "\n\n".toList := by
  have hone : core ++ ['\n'] ≠ ['\n'] := by simpa using h.ne_nil
  have hgap : ¬ endsWith "\n\n".toList (core ++ ['\n']) = true := by
    intro hend
    obtain ⟨front, hfront⟩ : "\n\n".toList <:+ core ++ ['\n'] := List.isSuffixOf_iff_suffix.mp hend
    have hboth : front ++ ['\n'] ++ ['\n'] = core ++ ['\n'] := by
      rw [← hfront, List.append_assoc]
      rfl
    have hcore : front ++ ['\n'] = core := List.append_cancel_right hboth
    exact not_atLineStart_of_endsInInk h (endsWith_newline_iff.mpr ⟨front, hcore.symm⟩)
  rw [startBlock, hs, if_pos ⟨hone, hgap⟩, List.append_assoc]
  rfl

/-- **Starting a block** brings a neat buffer to one empty line, or to the first line feed of the value. -/
theorem startBlock_eq {s : Text} (h : NeatEnd s) :
    startBlock s = if s = [] then ['\n'] else stripEnd s ++ "\n\n".toList := by
  have hstart := startLine_eq_lineStart h.tidy
  cases h with
  | nothing => rfl
  | text hcore =>
    have hend : ¬ endsWith ['\n'] s = true := not_atLineStart_of_endsInInk hcore
    rw [lineStart, if_neg hend] at hstart
    rw [startBlock_of_lineStart hcore hstart, if_neg hcore.ne_nil, hcore.stripEnd_eq]
  | @line core hcore =>
    rw [lineStart, if_pos (endsWith_newline_iff.mpr ⟨core, rfl⟩)] at hstart
    rw [startBlock_of_lineStart hcore hstart, if_neg (by simp),
      hcore.stripEnd_append_spaces (List.all_eq_true.mp rfl)]
  | @gap core hcore =>
    have hend : endsWith ['\n'] (core ++ "\n\n".toList) = true :=
      endsWith_newline_iff.mpr ⟨core ++ ['\n'], by simp⟩
    have hgap : endsWith "\n\n".toList (core ++ "\n\n".toList) = true :=
      List.isSuffixOf_iff_suffix.mpr ⟨core, rfl⟩
    rw [lineStart, if_pos hend] at hstart
    rw [startBlock, hstart, if_neg fun hmore => hmore.2 hgap, if_neg (by simp),
      hcore.stripEnd_append_spaces (List.all_eq_true.mp rfl)]

/-! ### Runs of items -/

def ownLine (item : Text) : Text := indent ++ strip item

theorem newline_notMem_ownLine {item : Text} (h : '\n' ∉ item) : '\n' ∉ ownLine item := fun hmem =>
  (List.mem_append.mp hmem).elim newline_notMem_indent fun hstrip => h ((strip_sublist item).subset hstrip)

theorem feed_item {w : LineWrap} (hcode : w.codeBlock = false) {line : Text} (hitem : isListItem line = true) :
    w.feed line = w.feedItem line := by
  rw [feed, isFence_of_isListItem hitem, hcode, hitem]
  rfl

/-- Where a list item is written: behind the item before it, or in a new block. -/
def itemStart (w : LineWrap) : Text := if w.listBlock then w.buffer else startBlock w.buffer

/-- **One item** is written on a line of its own and leaves the list open. -/
theorem feed_item_eq {w : LineWrap} (hcode : w.codeBlock = false) {line : Text} (hitem : isListItem line = true) :
    (w.feed line).buffer = w.itemStart ++ (ownLine line ++ ['\n']) ∧
      (w.feed line).codeBlock = false ∧ (w.feed line).listBlock = true := by
  rw [feed_item hcode hitem]
  refine ⟨?_, hcode, rfl⟩
  simp only [feedItem, itemStart, ownLine, List.append_assoc]

/-- **Any items** are written on consecutive lines. -/
theorem foldl_feed_items {w : LineWrap} (hcode : w.codeBlock = false) {items : List Text} (hne : items ≠ [])
    (hitems : ∀ l ∈ items, isListItem l = true) :
    (items.foldl feed w).buffer = w.itemStart ++ items.flatMap (fun l => ownLine l ++ ['\n']) ∧
      (items.foldl feed w).codeBlock = false ∧ (items.foldl feed w).listBlock = true := by
  induction items using List.reverseRecOn with
  | nil => exact absurd rfl hne
  | append_singleton items line ih =>
    have hline : isListItem line = true := hitems line (by simp)
    rw [List.foldl_concat]
    by_cases hnil : items = []
    · subst hnil
      simpa using feed_item_eq hcode hline
    · obtain ⟨hbuffer, hout, hlist⟩ := ih hnil fun l hl => hitems l (List.mem_append_left _ hl)
      obtain ⟨hnext, hflags⟩ := feed_item_eq hout hline
      refine ⟨?_, hflags⟩
      rw [hnext, itemStart, hlist, if_pos rfl, hbuffer]
      simp

/-- The lines of a text with a run in it. -/
theorem lines_append_run {items : List Text} (h : ∀ l ∈ items, '\n' ∉ l) (top z : Text) :
    lines (top ++ ['\n'] ++ items.flatMap (fun l => ownLine l ++ ['\n']) ++ z) =
      lines top ++ items.map ownLine ++ lines z := by
  have hown : ∀ l ∈ items.map ownLine, '\n' ∉ l := by
    intro l hl
    obtain ⟨item, hitem, rfl⟩ := List.mem_map.mp hl
    exact newline_notMem_ownLine (h item hitem)
  have hcut : top ++ ['\n'] ++ items.flatMap (fun l => ownLine l ++ ['\n']) ++ z =
      top ++ '\n' :: ((items.map ownLine).flatMap (· ++ ['\n']) ++ z) := by
    rw [List.flatMap_map]
    simp
  rw [hcut, lines_append_newline, lines_flatMap_append hown, List.append_assoc]

/-- Items are written at the start of a line. A run that is not yet open has one empty line above it, or the
first line feed of the value. -/
theorem Neat.itemStart_cases {w : LineWrap} (h : w.Neat) : ∃ above, w.itemStart = above ++ ['\n'] ∧
    (w.listBlock = false →
      (w.buffer = [] ∧ above = []) ∨ (EndsInInk w.value ∧ above = w.value ++ ['\n'])) := by
  unfold itemStart
  split
  · rename_i hlist
    obtain ⟨core, -, hbuffer⟩ := h.item hlist
    exact ⟨core, hbuffer, fun hclosed => absurd (hlist.symm.trans hclosed) (by simp)⟩
  · rw [startBlock_eq h.ending]
    by_cases hnil : w.buffer = []
    · exact ⟨[], by rw [if_pos hnil]; rfl, fun _ => Or.inl ⟨hnil, rfl⟩⟩
    · refine ⟨w.value ++ ['\n'], ?_, fun _ => Or.inr ⟨?_, rfl⟩⟩
      · rw [if_neg hnil, value, List.append_assoc]
        rfl
      · exact h.ending.endsInInk_stripEnd hnil

/-! ### What is written stays -/

/-- A text that later lines do not touch: ink at its end, or one line feed behind that. -/
inductive Lasting : Text → Prop where
  | text {s : Text} : EndsInInk s → Lasting s
  | line {s : Text} : EndsInInk s → Lasting (s ++ ['\n'])

/-- White space at the end may go, if a line feed comes in its place. -/
theorem Lasting.prefix_stripEnd {x s : Text} (hx : Lasting x) (h : x <+: s) (y : Text) :
    x <+: stripEnd s ++ '\n' :: y := by
  obtain ⟨z, rfl⟩ := h
  cases hx with
  | text hink =>
    rw [hink.stripEnd_append, List.append_assoc]
    exact List.prefix_append _ _
  | @line core hink =>
    rw [List.append_assoc, hink.stripEnd_append, List.append_assoc]
    refine (List.prefix_append_right_inj core).mpr ?_
    -- What is left begins with the line feed, or is empty.
    obtain ⟨t, ht, -⟩ := exists_trimEnd_append isSpace (['\n'] ++ z)
    cases hrest : stripEnd (['\n'] ++ z) with
    | nil => exact ⟨y, rfl⟩
    | cons d r =>
      rw [← stripEnd, hrest] at ht
      obtain ⟨rfl, -⟩ := List.cons.inj ht
      exact ⟨r ++ '\n' :: y, rfl⟩

section Stays

variable {x : Text} {w : LineWrap}

/-- A piece of prose leaves a lasting text in front of it. -/
theorem prefix_flowPiece (hx : Lasting x) (h : x <+: w.buffer) (first : Bool) (piece : Text) :
    x <+: (w.flowPiece first piece).buffer := by
  rw [flowPiece_eq]
  split
  · exact h
  · refine List.IsPrefix.trans ?_ (List.prefix_append _ _)
    unfold lead
    split
    · rw [List.append_assoc]
      exact hx.prefix_stripEnd h _
    · split
      · exact h.trans (List.prefix_append _ _)
      · split
        · rename_i hempty
          rwa [List.isEmpty_iff.mp hempty] at h
        · exact h.trans (List.prefix_append _ _)

theorem prefix_flow (hx : Lasting x) (h : x <+: w.buffer) (line : Text) : x <+: (w.flow line).buffer :=
  flow_induction (P := fun v => x <+: v.buffer) (fun _ first piece _ hv => prefix_flowPiece hx hv first piece) h

theorem prefix_lineStart {s : Text} (h : x <+: s) : x <+: lineStart s := by
  unfold lineStart
  split
  · exact h
  · exact h.trans (List.prefix_append _ _)

/-- A new block leaves in front what was written before. -/
theorem prefix_startBlock {s : Text} (hs : Tidy s) (h : x <+: s) : x <+: startBlock s := by
  have hline : x <+: startLine s := startLine_eq_lineStart hs ▸ prefix_lineStart h
  unfold startBlock
  dsimp only
  split
  · exact hline.trans (List.prefix_append _ _)
  · exact hline

theorem prefix_closed (h : x <+: w.buffer) : x <+: w.closed := by
  unfold closed
  split
  · exact h.trans (List.prefix_append _ _)
  · exact h

/-- **One line** is written behind what was there. -/
theorem prefix_feed (hx : Lasting x) (htidy : w.TidyOutside) (h : x <+: w.buffer) (line : Text) :
    x <+: (w.feed line).buffer := by
  unfold feed
  split
  · simp only [feedFence, List.append_assoc]
    refine List.IsPrefix.trans ?_ (List.prefix_append _ _)
    split
    · exact h
    · rename_i hcode
      have hout := htidy (by simpa using hcode)
      rw [trimIndent_eq_self hout, startLine_eq_lineStart hout]
      exact prefix_lineStart h
  · split
    · rw [feedCode_eq]
      exact h.trans (List.prefix_append _ _)
    · rename_i hcode
      split
      · simp only [feedItem, List.append_assoc]
        refine List.IsPrefix.trans ?_ (List.prefix_append _ _)
        split
        · exact h
        · exact prefix_startBlock (htidy (by simpa using hcode)) h
      · rw [feedProse_eq]
        exact prefix_flow hx (prefix_closed h) line

/-- **Any lines** are written behind what was there. -/
theorem prefix_foldl_feed (hx : Lasting x) (htidy : w.TidyOutside) (h : x <+: w.buffer) (ls : List Text) :
    x <+: (ls.foldl feed w).buffer := by
  induction ls generalizing w with
  | nil => exact h
  | cons l ls ih => exact ih (tidyOutside_feed htidy l) (prefix_feed hx htidy h l)

end Stays

/-! ### Prose behind a list -/

/-- A line of white space and paragraph markers. -/
def IsBlankLine (line : Text) : Prop := ∀ piece ∈ splitParagraphs line, ∀ c ∈ piece, isSpace c = true

instance : DecidablePred IsBlankLine := fun line =>
  decidable_of_iff ((splitParagraphs line).all (·.all isSpace) = true) (by simp [IsBlankLine])

/-- The first text of a line of prose, as Markdown: that of the first piece between its markers that is not
blank. -/
def firstText? (line : Text) : Option Text := ((splitParagraphs line).map proseOf).find? (· ≠ [])

theorem proseOf_eq_nil {piece : Text} (h : ∀ c ∈ piece, isSpace c = true) : proseOf piece = [] := by
  rw [proseOf, cleanLine_eq_nil_iff.mpr (ink_eq_nil h)]
  rfl

theorem feed_prose {w : LineWrap} (hcode : w.codeBlock = false) {line : Text} (hprose : IsProse line) :
    w.feed line = w.feedProse line := by
  rw [feed, hprose.1, hprose.2, hcode]
  rfl

/-- Blank lines close the list and write nothing else. -/
theorem feed_blankLine {w : LineWrap} (hcode : w.codeBlock = false) {line : Text} (hprose : IsProse line)
    (hblank : IsBlankLine line) :
    (w.feed line).codeBlock = false ∧ (w.feed line).closed = w.closed := by
  rw [feed_prose hcode hprose, feedProse_eq]
  refine flow_induction (P := fun v => v.codeBlock = false ∧ v.closed = w.closed) ?_ ⟨hcode, rfl⟩
  intro v first piece hpiece hv
  rw [flowPiece_eq, if_pos (proseOf_eq_nil (hblank piece hpiece))]
  exact hv

/-- Blank lines only close the list that may be open. -/
theorem foldl_feed_blankLines {w : LineWrap} (hcode : w.codeBlock = false) {gap : List Text}
    (hgap : ∀ g ∈ gap, IsProse g ∧ IsBlankLine g) :
    (gap.foldl feed w).codeBlock = false ∧ (gap.foldl feed w).closed = w.closed := by
  refine List.foldlRecOn gap feed (motive := fun v => v.codeBlock = false ∧ v.closed = w.closed) ⟨hcode, rfl⟩ ?_
  rintro v ⟨hout, hclosed⟩ g hg
  obtain ⟨hprose, hblank⟩ := hgap g hg
  obtain ⟨hout', hclosed'⟩ := feed_blankLine hout hprose hblank
  exact ⟨hout', hclosed'.trans hclosed⟩

/-- Behind a closed list text is indented, whether a paragraph break is pending or not. -/
theorem lead_of_gap {core : Text} (h : EndsInInk core) (breaks : Bool) :
    lead breaks (core ++ "\n\n".toList) = core ++ "\n\n".toList ++ indent := by
  have hend : endsWith ['\n'] (core ++ "\n\n".toList) = true :=
    endsWith_newline_iff.mpr ⟨core ++ ['\n'], by simp⟩
  cases breaks with
  | false => rw [lead, if_neg (by simp), if_pos hend]
  | true => rw [lead, if_pos rfl, h.stripEnd_append_spaces (List.all_eq_true.mp rfl)]

/-- The pieces of a line, one after another. `first` says that the first of them has no marker before it. -/
def flowPieces (w : LineWrap) : (first : Bool) → List Text → LineWrap
  | _, [] => w
  | first, p :: ps => flowPieces (w.flowPiece first p) false ps

/-- A line of prose is written piece by piece. -/
theorem flow_eq_flowPieces (w : LineWrap) (line : Text) :
    w.flow line = w.flowPieces true (splitParagraphs line) := by
  have hfold : ∀ (ps : List Text) (v : LineWrap),
      ps.foldl (fun v p => v.flowPiece false p) v = v.flowPieces false ps := by
    intro ps
    induction ps with
    | nil => exact fun _ => rfl
    | cons p ps ih => exact fun v => ih (v.flowPiece false p)
  unfold flow
  split
  · rename_i hps
    rw [hps]
    rfl
  · rename_i p ps hps
    rw [hps, hfold]
    rfl

theorem prefix_flowPieces {x : Text} (hx : Lasting x) {w : LineWrap} (h : x <+: w.buffer) (first : Bool)
    (ps : List Text) : x <+: (w.flowPieces first ps).buffer := by
  induction ps generalizing w first with
  | nil => exact h
  | cons p ps ih => exact ih (prefix_flowPiece hx h first p) false

/-- The first text among the pieces is written right behind the empty line. -/
theorem prefix_flowPieces_of_gap {core : Text} (hcore : EndsInInk core) {t : Text} {ps : List Text}
    (ht : (ps.map proseOf).find? (· ≠ []) = some t) {w : LineWrap} (hw : w.buffer = core ++ "\n\n".toList)
    (first : Bool) : core ++ "\n\n".toList ++ indent ++ t <+: (w.flowPieces first ps).buffer := by
  induction ps generalizing w first with
  | nil => cases ht
  | cons p ps ih =>
    rw [List.map_cons] at ht
    by_cases hp : proseOf p = []
    · rw [List.find?_cons_of_neg (by simp [hp])] at ht
      refine ih ht ?_ false
      rw [flowPiece_eq, if_pos hp]
      exact hw
    · rw [List.find?_cons_of_pos (by simpa using hp)] at ht
      obtain rfl := Option.some.inj ht
      have hbuffer : (w.flowPiece first p).buffer = core ++ "\n\n".toList ++ indent ++ proseOf p := by
        rw [flowPiece_eq, if_neg hp, hw, lead_of_gap hcore]
      exact prefix_flowPieces (.text ((endsInInk_proseOf hp).append _)) (hbuffer ▸ List.prefix_rfl) false ps

/-- **Prose behind a list** begins with its first text, below one empty line. -/
theorem prefix_feed_of_gap {core : Text} (hcore : EndsInInk core) {w : LineWrap} (hcode : w.codeBlock = false)
    (hw : w.closed = core ++ "\n\n".toList) {line t : Text} (hprose : IsProse line)
    (ht : firstText? line = some t) :
    core ++ "\n\n".toList ++ indent ++ t <+: (w.feed line).buffer := by
  rw [feed_prose hcode hprose, feedProse_eq, flow_eq_flowPieces]
  exact prefix_flowPieces_of_gap hcore ht hw true

theorem endsInInk_firstText {line t : Text} (h : firstText? line = some t) : EndsInInk t := by
  obtain ⟨p, -, rfl⟩ := List.mem_map.mp (List.mem_of_find?_eq_some h)
  exact endsInInk_proseOf (by simpa using List.find?_some h)

theorem newline_notMem_firstText {line t : Text} (hline : '\n' ∉ line) (h : firstText? line = some t) :
    '\n' ∉ t := by
  obtain ⟨p, hp, rfl⟩ := List.mem_map.mp (List.mem_of_find?_eq_some h)
  exact newline_notMem_proseOf (newline_notMem_piece hline hp)

theorem feedAll_append (ls ks : List Text) : feedAll (ls ++ ks) = ks.foldl feed (feedAll ls) := List.foldl_append

/-- **Any blank lines and any lines behind it** leave prose where it is. -/
theorem prefix_feedAll_of_gap {core : Text} (hcore : EndsInInk core) {ls gap : List Text} {p t : Text}
    (hcode : (feedAll ls).codeBlock = false) (hclosed : (feedAll ls).closed = core ++ "\n\n".toList)
    (hgap : ∀ g ∈ gap, IsProse g ∧ IsBlankLine g) (more : List Text) (hprose : IsProse p)
    (ht : firstText? p = some t) :
    core ++ "\n\n".toList ++ indent ++ t <+: (feedAll (ls ++ (gap ++ p :: more))).buffer := by
  obtain ⟨hgapCode, hgapClosed⟩ := foldl_feed_blankLines hcode hgap
  have htidy : (gap.foldl feed (feedAll ls)).TidyOutside := feedAll_append ls gap ▸ tidy_feedAll (ls ++ gap)
  rw [feedAll_append, List.foldl_append, List.foldl_cons]
  exact prefix_foldl_feed (.text ((endsInInk_firstText ht).append _)) (tidyOutside_feed htidy p)
    (prefix_feed_of_gap hcore hgapCode (hgapClosed.trans hclosed) hprose ht) more

/-! ### The layout of a list -/

/-- How a run of list items stands in a value: `before`, `items` and `after` are the lines that are fed, `front`
and `back` the lines of the value above and below the run. -/
structure ListLayout (before items after front back : List Text) : Prop where
  /-- Every item is a line of its own, and items that are fed one after another are on consecutive lines. -/
  lines_eq : lines (feedAll (before ++ items ++ after)).buffer =
    front ++ items.map (fun l => indent ++ strip l) ++ back
  /-- A run that opens the value has a line feed before it and nothing else. -/
  opening : (∀ l ∈ before.getLast?, isListItem l = false) → (feedAll before).buffer = [] → front = [[]]
  /-- Above any other run stands the value so far, and exactly one empty line. -/
  above : (∀ l ∈ before.getLast?, isListItem l = false) → (feedAll before).buffer ≠ [] →
    ∃ body last, last ≠ [] ∧ lines (feedAll before).value = body ++ [last] ∧ front = body ++ [last, []]
  /-- Below the run stands exactly one empty line, and then the first prose text on a line of its own, whatever
  blank lines were fed in between. -/
  below : ∀ gap p more t, after = gap ++ p :: more → (∀ g ∈ gap, IsProse g ∧ IsBlankLine g) →
    IsProse p → '\n' ∉ p → firstText? p = some t → ∃ x rest, back = [] :: (indent ++ t ++ x) :: rest

theorem codeBlock_feedAll (ls : List Text) : (feedAll ls).codeBlock = insideFence ls :=
  writesLines_feed.inside_foldl rfl ls

/-- A list is open only behind an item. -/
theorem listBlock_feedAll {ls : List Text} (hout : insideFence ls = false)
    (hlast : ∀ l ∈ ls.getLast?, isListItem l = false) : (feedAll ls).listBlock = false := by
  rcases List.eq_nil_or_concat ls with rfl | ⟨init, l, rfl⟩
  · rfl
  · rw [List.concat_eq_append] at hout hlast ⊢
    have hitem : isListItem l = false := hlast l (by simp)
    rw [feedAll, List.foldl_concat, ← feedAll]
    by_cases hfence : isFence l = true
    · rw [feed, if_pos hfence]
      rfl
    · have hcode : (feedAll init).codeBlock = false := by
        rw [codeBlock_feedAll]
        simpa [insideFence_concat, hfence] using hout
      rw [feed_prose hcode ⟨by simpa using hfence, hitem⟩, feedProse_eq, (flags_flow _ l).2]

/-- A text in ink has a last line that is not empty. -/
theorem exists_lines_concat {s : Text} (h : EndsInInk s) :
    ∃ body last, last ≠ [] ∧ lines s = body ++ [last] := by
  rcases lastLine_cases s with hone | ⟨r, l, hl, rfl⟩
  · exact ⟨[], s, h.ne_nil, lines_eq_singleton hone⟩
  · refine ⟨lines r, l, ?_, by rw [lines_append_newline, lines_eq_singleton hl]⟩
    rintro rfl
    exact not_atLineStart_of_endsInInk h (atLineStart_newline r)

theorem exists_lines_append {a : Text} (h : '\n' ∉ a) (z : Text) :
    ∃ x rest, lines (a ++ z) = (a ++ x) :: rest := by
  obtain ⟨l, ls, hlines⟩ := List.exists_cons_of_ne_nil (lines_ne_nil z)
  exact ⟨l, ls, by rw [lines_append_of_notMem h, hlines]; rfl⟩

/-- **Lists are separated by exactly one empty line.** Outside of fenced blocks, whatever lines are fed before
and after, a run of list items is a block of consecutive lines. Above it stands the value so far and one empty
line, or only the line feed that opens the value; below it stand one empty line and the prose that follows. -/
theorem exists_listLayout {before items : List Text} (after : List Text) (hout : insideFence before = false)
    (hne : items ≠ []) (hitems : ∀ l ∈ items, isListItem l = true) (hlines : ∀ l ∈ items, '\n' ∉ l) :
    ∃ front back, ListLayout before items after front back := by
  have hcode : (feedAll before).codeBlock = false := (codeBlock_feedAll before).trans hout
  obtain ⟨hrun, hrunCode, hrunList⟩ := foldl_feed_items hcode hne hitems
  rw [← feedAll_append] at hrun hrunCode hrunList
  obtain ⟨core, hcore, hend⟩ := (neat_feedAll _ hrunCode).item hrunList
  -- The run and its last line feed stay, so the value is cut there.
  have hstays : core ++ ['\n'] <+: (feedAll (before ++ items ++ after)).buffer := by
    rw [feedAll_append]
    exact prefix_foldl_feed (.line hcore) (tidy_feedAll _) (hend ▸ List.prefix_rfl) after
  obtain ⟨z, hz⟩ := hstays
  obtain ⟨top, hstart, htop⟩ := (neat_feedAll before hcode).itemStart_cases
  refine ⟨lines top, lines z, ?_, fun hlast hnil => ?_, fun hlast hsome => ?_, ?_⟩
  · rw [← hz, ← hend, hrun, hstart]
    exact lines_append_run hlines top z
  · rcases htop (listBlock_feedAll hout hlast) with ⟨-, rfl⟩ | ⟨hink, -⟩
    · rfl
    · rw [value, hnil] at hink
      exact absurd rfl hink.ne_nil
  · rcases htop (listBlock_feedAll hout hlast) with ⟨hnil, -⟩ | ⟨hink, rfl⟩
    · exact absurd hnil hsome
    · obtain ⟨body, last, hlast, hvalue⟩ := exists_lines_concat hink
      refine ⟨body, last, hlast, hvalue, ?_⟩
      rw [lines_append_newline, hvalue, List.append_assoc]
      rfl
  · rintro gap p more t rfl hgap hprose hp ht
    have hclosed : (feedAll (before ++ items)).closed = core ++ "\n\n".toList := by
      rw [closed, if_pos hrunList, hend, List.append_assoc]
      rfl
    obtain ⟨y, hy⟩ := prefix_feedAll_of_gap hcore hrunCode hclosed hgap more hprose ht
    have hboth : core ++ ['\n'] ++ z = core ++ ['\n'] ++ ([] ++ '\n' :: (indent ++ t ++ y)) := by
      rw [hz, ← hy]
      simp
    have hback : z = [] ++ '\n' :: (indent ++ t ++ y) := List.append_cancel_left hboth
    have hline : '\n' ∉ indent ++ t := by
      simp [newline_notMem_indent, newline_notMem_firstText hp ht]
    obtain ⟨x, rest, hx⟩ := exists_lines_append hline y
    exact ⟨x, rest, by rw [hback, lines_append_cons (by simp), hx]⟩

/-- Two items below some text, with a marker in between, blank lines of all kinds below them, and prose that
begins behind a marker. The same items also open a value. -/
theorem exists_listLayout_steps :
    (∃ body last x rest, last ≠ [] ∧
      lines (feedAll (["Do:".toList, " <p>".toList] ++ ["- one".toList, "  2. two ".toList] ++
          ["".toList, "<P></p>".toList, " \t".toList, "<p> Then  <code>x</code>".toList, "- b".toList])).buffer =
        body ++ [last, []] ++ ["     - one".toList, "     2. two".toList] ++
          [] :: ("     Then `x`".toList ++ x) :: rest) ∧
      ∃ back, lines (feedAll ([] ++ ["- one".toList, "  2. two ".toList] ++ ["```".toList])).buffer =
        [[]] ++ ["     - one".toList, "     2. two".toList] ++ back := by
  have hitems : ∀ l ∈ ["- one".toList, "  2. two ".toList], isListItem l = true ∧ '\n' ∉ l := by decide
  have hitem := fun l hl => (hitems l hl).1
  have hline := fun l hl => (hitems l hl).2
  constructor
  · have hgap : ∀ g ∈ ["".toList, "<P></p>".toList, " \t".toList], IsProse g ∧ IsBlankLine g := by decide
    have hout : insideFence ["Do:".toList, " <p>".toList] = false := rfl
    have hvalue : (feedAll ["Do:".toList, " <p>".toList]).buffer = "Do:".toList := rfl
    have hprose : IsProse "<p> Then  <code>x</code>".toList := ⟨rfl, rfl⟩
    obtain ⟨front, back, h⟩ := exists_listLayout
      ["".toList, "<P></p>".toList, " \t".toList, "<p> Then  <code>x</code>".toList, "- b".toList] hout
      (List.cons_ne_nil _ _) hitem hline
    obtain ⟨body, last, hlast, -, rfl⟩ := h.above (by rintro l ⟨⟩; rfl) (by rw [hvalue]; simp)
    obtain ⟨x, rest, rfl⟩ := h.below _ _ _ "Then `x`".toList rfl hgap hprose (by simp) rfl
    exact ⟨body, last, x, rest, hlast, h.lines_eq⟩
  · have hout : insideFence [] = false := rfl
    obtain ⟨front, back, h⟩ := exists_listLayout ["```".toList] hout (List.cons_ne_nil _ _) hitem hline
    obtain rfl := h.opening (by simp) rfl
    exact ⟨back, h.lines_eq⟩

end DocMark.Comment.LineWrap
