import DocMark.Proofs.Comment.WrapSteps
import DocMark.Proofs.Text.Counting
import DocMark.Proofs.Text.Ink
import DocMark.Proofs.Text.LowerLines

/-!
Values hang below their first line.

Every line of a value but the first is empty or indented, whatever lines it was built from
(`hangs_value`). The invariant of the machine has two parts (`Hanging`): the buffer hangs, and it stands at
the start of a line whenever a block is open, which is where the next line of the block is written.
-/

namespace DocMark.Comment

open Text

/-- A line that may stand below the first line of a value: empty or indented. -/
def IsHangingLine (line : Text) : Prop := line = [] ∨ indent <+: line

/-- All lines of a text but the first are empty or indented. -/
def Hangs (s : Text) : Prop := LowerLines IsHangingLine s

def AtLineStart (s : Text) : Prop := endsWith ['\n'] s = true

theorem isHangingLine_nil : IsHangingLine [] := Or.inl rfl

theorem isHangingLine_indent (s : Text) : IsHangingLine (indent ++ s) :=
  Or.inr (List.prefix_append indent s)

theorem atLineStart_newline (s : Text) : AtLineStart (s ++ ['\n']) :=
  endsWith_newline_iff.mpr ⟨s, rfl⟩

theorem newline_notMem_indent : '\n' ∉ indent := by decide

/-! ### The end of a text -/

theorem atLineStart_iff {s : Text} : AtLineStart s ↔ s.getLast? = some '\n' := by
  rw [AtLineStart, endsWith_newline_iff, List.getLast?_eq_some_iff]

theorem not_atLineStart_nil : ¬ AtLineStart [] := by
  rw [atLineStart_iff]
  rintro ⟨⟩

theorem atLineStart_append {a b : Text} (hb : b ≠ []) : AtLineStart (a ++ b) ↔ AtLineStart b := by
  rw [atLineStart_iff, atLineStart_iff, List.getLast?_append_of_ne_nil _ hb]

theorem atLineStart_append_of_not {a : Text} (ha : ¬ AtLineStart a) (b : Text) :
    AtLineStart (a ++ b) ↔ AtLineStart b := by
  cases b with
  | nil =>
    rw [List.append_nil]
    exact iff_of_false ha not_atLineStart_nil
  | cons c r => exact atLineStart_append (List.cons_ne_nil c r)

theorem not_atLineStart_of_endsInInk {s : Text} (h : EndsInInk s) : ¬ AtLineStart s := by
  obtain ⟨c, hc, hink⟩ := h
  rw [atLineStart_iff, hc]
  rintro ⟨⟩
  exact absurd hink (by simp [isSpace])

theorem not_atLineStart_of_notMem {s : Text} (h : '\n' ∉ s) : ¬ AtLineStart s := by
  rw [atLineStart_iff]
  exact fun hlast => h (List.mem_of_getLast? hlast)

theorem not_atLineStart_stripEnd (s : Text) : ¬ AtLineStart (stripEnd s) := by
  by_cases hink : ink s = []
  · rw [stripEnd_eq_nil_iff.mpr hink]
    exact not_atLineStart_nil
  · exact not_atLineStart_of_endsInInk (endsInInk_stripEnd hink)

/-! ### Texts that hang -/

namespace Hangs

variable {s x : Text}

theorem of_notMem (h : '\n' ∉ s) : Hangs s := lowerLines_of_notMem h

/-- One more line. -/
theorem line (h : Hangs s) (hx : '\n' ∉ x) (hline : IsHangingLine x) : Hangs (s ++ '\n' :: x) :=
  (lowerLines_append_line hx).mpr ⟨h, hline⟩

theorem newline (h : Hangs s) : Hangs (s ++ ['\n']) := h.line (by simp) isHangingLine_nil

theorem of_newline (h : Hangs (s ++ ['\n'])) : Hangs s :=
  ((lowerLines_append_line (l := []) (by simp)).mp h).1

/-- Indented text at the start of a line. -/
theorem indented (h : Hangs s) (hs : AtLineStart s) (hx : '\n' ∉ x) : Hangs (s ++ indent ++ x) := by
  obtain ⟨r, rfl⟩ := endsWith_newline_iff.mp hs
  have hline : '\n' ∉ indent ++ x := by
    simp [newline_notMem_indent, hx]
  simpa using h.of_newline.line hline (isHangingLine_indent x)

/-- Text behind a line that is not empty. -/
theorem append (h : Hangs s) (hs : ¬ AtLineStart s) (hx : '\n' ∉ x) : Hangs (s ++ x) := by
  rcases lastLine_cases s with hnone | ⟨r, l, hl, rfl⟩
  · exact of_notMem (by simp [hnone, hx])
  · obtain ⟨hr, hlast⟩ := (lowerLines_append_line hl).mp h
    have hlx : '\n' ∉ l ++ x := by simp [hl, hx]
    rw [List.append_assoc, List.cons_append]
    rcases hlast with rfl | hindent
    · exact absurd (atLineStart_newline r) hs
    · exact line hr hlx (Or.inr (hindent.trans (List.prefix_append l x)))

/-- Trimming blanks, or more, at the end. -/
theorem trimEnd {p : Char → Bool} (hp : p ' ' = true) (h : Hangs s) : Hangs (trimEnd p s) := by
  refine LowerLines.trimEnd isHangingLine_nil ?_ h
  rintro l (rfl | ⟨r, rfl⟩) ⟨c, hc, hpc⟩
  · exact absurd hc List.not_mem_nil
  · -- The indent is blank, so what remains of the line stands behind it.
    have hblank : ∀ d ∈ indent, p d = true := by simp [indent, hp]
    have hmem : c ∈ r := by
      rcases List.mem_append.mp hc with hin | hin
      · exact absurd (hblank c hin) (by simp [hpc])
      · exact hin
    rw [trimEnd_append_of_exists indent ⟨c, hmem, hpc⟩]
    exact isHangingLine_indent _

theorem stripEnd (h : Hangs s) : Hangs (stripEnd s) := h.trimEnd rfl

end Hangs

namespace LineWrap

/-! ### The buffer before a block -/

theorem hangs_trimIndentEnd {s : Text} (h : Hangs s) : Hangs (trimIndentEnd s) := by
  have htrim : Hangs (trimEnd isBlank s) := h.trimEnd rfl
  rcases trimEnd_isBlank_cases s with heq | heq
  · rwa [heq] at htrim
  · rw [heq] at htrim
    exact htrim.of_newline

theorem hangs_trimIndent {s : Text} (h : Hangs s) : Hangs (trimIndent s) := by
  rcases trimIndent_cases s with heq | ⟨r, rfl, heq⟩
  · rw [heq]
    exact hangs_trimIndentEnd h
  · rw [heq]
    exact (hangs_trimIndentEnd h.of_newline).newline

/-- The start of a line is reached without a line that does not hang. -/
theorem hangs_startLine {s : Text} (h : Hangs s) : Hangs (startLine s) ∧ AtLineStart (startLine s) := by
  unfold startLine
  split
  · exact ⟨(Hangs.of_notMem (s := []) (by simp)).newline, atLineStart_newline []⟩
  · split
    · rename_i hend
      exact ⟨h, hend⟩
    · exact ⟨(h.trimEnd rfl).newline, atLineStart_newline _⟩

/-- A new block begins at the start of a line, and the text hangs. -/
theorem hangs_startBlock {s : Text} (h : Hangs s) :
    Hangs (startBlock s) ∧ AtLineStart (startBlock s) := by
  obtain ⟨hstart, hend⟩ := hangs_startLine h
  simp only [startBlock]
  split
  · exact ⟨hstart.newline, atLineStart_newline _⟩
  · exact ⟨hstart, hend⟩

/-! ### Prose -/

theorem newline_notMem_proseOf {line : Text} (h : '\n' ∉ line) : '\n' ∉ proseOf line := by
  have hle : (proseOf line).count '\n' ≤ line.count '\n' :=
    (count_codeToMarkdown_le (by decide) _).trans (count_cleanLine_le line)
  rw [List.count_eq_zero_of_not_mem h] at hle
  exact List.count_eq_zero.mp (Nat.le_zero.mp hle)

theorem newline_notMem_piece {line p : Text} (h : '\n' ∉ line) (hp : p ∈ splitParagraphs line) :
    '\n' ∉ p := by
  have hle : (splitParagraphs line).flatten.count '\n' ≤ line.count '\n' := count_flatten_cut_le _ _
  rw [List.count_eq_zero_of_not_mem h] at hle
  have hnone := List.count_eq_zero.mp (Nat.le_zero.mp hle)
  exact fun hmem => hnone (List.mem_flatten.mpr ⟨p, hp, hmem⟩)

/-- New prose behind the buffer keeps it hanging. -/
theorem hangs_lead_append (breaks : Bool) {s x : Text} (h : Hangs s) (hx : '\n' ∉ x) :
    Hangs (lead breaks s ++ x) := by
  unfold lead
  split
  · have hbreak : Hangs (stripEnd s ++ ['\n'] ++ ['\n']) := h.stripEnd.newline.newline
    simpa using hbreak.indented (atLineStart_newline _) hx
  · split
    · rename_i hend
      exact h.indented hend hx
    · split
      · exact Hangs.of_notMem hx
      · rename_i hend _
        rw [List.append_assoc]
        exact h.append hend (by simpa using hx)

/-- A line of prose keeps the buffer hanging. -/
theorem hangs_flow {w : LineWrap} (h : Hangs w.buffer) {line : Text} (hline : '\n' ∉ line) :
    Hangs (w.flow line).buffer := by
  refine flow_induction (P := fun v => Hangs v.buffer) ?_ h
  intro v first p hp hv
  rw [flowPiece_eq]
  split
  · exact hv
  · exact hangs_lead_append _ hv (newline_notMem_proseOf (newline_notMem_piece hline hp))

/-! ### The invariant -/

/-- The buffer hangs, and an open block stands at the start of a line. -/
structure Hanging (w : LineWrap) : Prop where
  hangs : Hangs w.buffer
  atLineStart : w.codeBlock = true ∨ w.listBlock = true → AtLineStart w.buffer

/-- A line of its own at the start of a line, indented. -/
theorem hangs_ownLine {start : Text} (h : Hangs start) (hstart : AtLineStart start) {line : Text}
    (hline : '\n' ∉ line) : Hangs (start ++ indent ++ strip line ++ ['\n']) := by
  have hstrip : '\n' ∉ strip line := fun hmem => hline ((strip_sublist line).subset hmem)
  exact (h.indented hstart hstrip).newline

/-- A fence keeps the buffer hanging. -/
theorem hangs_feedFence {w : LineWrap} (h : w.Hanging) {line : Text} (hline : '\n' ∉ line) :
    Hangs (w.feedFence line).buffer := by
  simp only [feedFence]
  split
  · rename_i hcode
    exact hangs_ownLine h.hangs (h.atLineStart (Or.inl hcode)) hline
  · obtain ⟨hstart, hend⟩ := hangs_startLine (hangs_trimIndent h.hangs)
    exact hangs_ownLine hstart hend hline

theorem newline_notMem_codeOf {line : Text} (h : '\n' ∉ line) : '\n' ∉ codeOf line := by
  unfold codeOf
  split
  · exact List.not_mem_nil
  · split
    · rename_i c r _
      split
      · exact fun hmem => h (List.mem_cons_of_mem c hmem)
      · exact h
    · exact List.not_mem_nil

/-- A line of code is indented, so that the buffer hangs. -/
theorem hangs_feedCode {w : LineWrap} (h : w.Hanging) (hcode : w.codeBlock = true) {line : Text}
    (hline : '\n' ∉ line) : Hangs (w.feedCode line).buffer := by
  have hbuffer := h.atLineStart (Or.inl hcode)
  have hcontent : Hangs (w.buffer ++ Comment.indented (codeOf line)) := by
    unfold Comment.indented
    split
    · rw [List.append_nil]
      exact h.hangs
    · rw [← List.append_assoc]
      exact h.hangs.indented hbuffer (newline_notMem_codeOf hline)
  rw [feedCode_eq, ← List.append_assoc]
  exact hcontent.newline

/-- A list item is indented, so that the buffer hangs. -/
theorem hangs_feedItem {w : LineWrap} (h : w.Hanging) {line : Text} (hline : '\n' ∉ line) :
    Hangs (w.feedItem line).buffer := by
  simp only [feedItem]
  split
  · rename_i hlist
    exact hangs_ownLine h.hangs (h.atLineStart (Or.inr hlist)) hline
  · obtain ⟨hstart, hend⟩ := hangs_startBlock h.hangs
    exact hangs_ownLine hstart hend hline

/-- Prose behind a list keeps the buffer hanging. -/
theorem hangs_feedProse {w : LineWrap} (h : w.Hanging) {line : Text} (hline : '\n' ∉ line) :
    Hangs (w.feedProse line).buffer := by
  refine hangs_flow ?_ hline
  simp only
  split
  · exact h.hangs.newline
  · exact h.hangs

/-- **One line**, in whatever state, leaves an open block at the start of a line: fences, code and list items end
with a line feed, and prose leaves no block open. -/
theorem atLineStart_feed (w : LineWrap) (line : Text)
    (hopen : (w.feed line).codeBlock = true ∨ (w.feed line).listBlock = true) :
    AtLineStart (w.feed line).buffer := by
  unfold feed at hopen ⊢
  split
  · exact atLineStart_newline _
  · rename_i hfence
    rw [if_neg hfence] at hopen
    split
    · rw [feedCode_eq, ← List.append_assoc]
      exact atLineStart_newline _
    · rename_i hcode
      rw [if_neg hcode] at hopen
      split
      · exact atLineStart_newline _
      · rename_i hitem
        rw [if_neg hitem, feedProse, (flags_flow _ line).1, (flags_flow _ line).2] at hopen
        exact absurd hopen (by simpa using hcode)

/-- **One line** keeps the invariant. -/
theorem hanging_feed {w : LineWrap} (h : w.Hanging) {line : Text} (hline : '\n' ∉ line) :
    (w.feed line).Hanging := by
  refine ⟨?_, atLineStart_feed w line⟩
  unfold feed
  split
  · exact hangs_feedFence h hline
  · split
    · rename_i hcode
      exact hangs_feedCode h hcode hline
    · split
      · exact hangs_feedItem h hline
      · exact hangs_feedProse h hline

/-- After any lines the buffer hangs. -/
theorem hanging_feedAll {ls : List Text} (hls : ∀ l ∈ ls, '\n' ∉ l) : (feedAll ls).Hanging := by
  have hfresh : Hanging {} := ⟨Hangs.of_notMem (by simp), by simp⟩
  refine List.foldlRecOn ls feed hfresh ?_
  intro w hw l hl
  exact hanging_feed hw (hls l hl)

/-- **A value hangs below its first line**, and does not end with a line feed. -/
theorem hangs_value {ls : List Text} (hls : ∀ l ∈ ls, '\n' ∉ l) :
    Hangs (feedAll ls).value ∧ ¬ AtLineStart (feedAll ls).value :=
  ⟨(hanging_feedAll hls).hangs.stripEnd, not_atLineStart_stripEnd _⟩

end LineWrap

end DocMark.Comment
