import DocMark.Proofs.Comment.Contribution
import DocMark.Proofs.Comment.WrapSteps

/-!
The line wrap machine keeps the ink of its lines.

The buffer is trimmed, extended and brought to the start of a line in many places, and each of these
moves white space only. So one line adds to the ink of the buffer exactly the ink it contributes
(`ink_feed`), and the value of any lines has the ink of their contributions, in order
(`ink_value_feedAll`).
-/

namespace DocMark.Comment.LineWrap

open Text

/-! ### The buffer before a block -/

@[simp] theorem ink_indent : ink indent = [] := rfl

theorem ink_trimEnd_isBlank (s : Text) : ink (trimEnd isBlank s) = ink s :=
  ink_trimEnd (fun _ h => isSpace_of_isBlank h) s

@[simp] theorem ink_trimIndentEnd (s : Text) : ink (trimIndentEnd s) = ink s := by
  rw [← ink_trimEnd_isBlank s]
  rcases trimEnd_isBlank_cases s with h | h
  · rw [h]
  · rw [h, ink_append, ink_newline, List.append_nil]

@[simp] theorem ink_trimIndent (s : Text) : ink (trimIndent s) = ink s := by
  rcases trimIndent_cases s with h | ⟨r, rfl, h⟩
  · rw [h, ink_trimIndentEnd]
  · rw [h, ink_append, ink_append, ink_trimIndentEnd]

@[simp] theorem ink_startLine (s : Text) : ink (startLine s) = ink s := by
  unfold startLine
  split
  · rename_i hempty
    rw [List.isEmpty_iff.mp hempty]
    rfl
  · split
    · rfl
    · rw [ink_append, ink_trimEnd_isBlank, ink_newline, List.append_nil]

@[simp] theorem ink_startBlock (s : Text) : ink (startBlock s) = ink s := by
  simp only [startBlock]
  split
  · rw [ink_append, ink_startLine, ink_newline, List.append_nil]
  · exact ink_startLine s

/-! ### Prose -/

@[simp] theorem ink_lead (breaks : Bool) (s : Text) : ink (lead breaks s) = ink s := by
  have hbreak : ink "\n\n".toList = [] := rfl
  have hspace : ink [' '] = [] := rfl
  unfold lead
  split
  · rw [ink_append, ink_append, ink_stripEnd, hbreak, ink_indent, List.append_nil, List.append_nil]
  · split
    · rw [ink_append, ink_indent, List.append_nil]
    · split
      · rename_i hempty
        rw [List.isEmpty_iff.mp hempty]
      · rw [ink_append, hspace, List.append_nil]

/-- A piece of prose adds its ink. -/
theorem ink_flowPiece (w : LineWrap) (first : Bool) (piece : Text) :
    ink (w.flowPiece first piece).buffer = ink w.buffer ++ ink (proseOf piece) := by
  rw [flowPiece_eq]
  split
  · rename_i hnil
    rw [hnil, ink_nil, List.append_nil]
  · simp only [ink_append, ink_lead]

theorem ink_foldl_flowPiece (ps : List Text) (w : LineWrap) :
    ink (ps.foldl (fun w p => w.flowPiece false p) w).buffer =
      ink w.buffer ++ ps.flatMap fun p => ink (proseOf p) := by
  induction ps generalizing w with
  | nil => simp
  | cons p ps ih =>
    rw [List.foldl_cons, ih, ink_flowPiece, List.flatMap_cons, List.append_assoc]

/-- The Markdown of a line of prose in a value: that of its pieces between paragraph markers. -/
def flowed (line : Text) : Text := (splitParagraphs line).flatMap fun p => codeToMarkdown (cleanLine p)

/-- A line of prose adds the ink of its pieces. -/
theorem ink_flow (w : LineWrap) (line : Text) :
    ink (w.flow line).buffer = ink w.buffer ++ ink (flowed line) := by
  rw [flowed, List.flatMap_def, ink_flatten, List.flatMap_map]
  unfold flow
  split
  · rename_i hnone
    simp [hnone]
  · rename_i p ps hps
    rw [ink_foldl_flowPiece, ink_flowPiece, hps, List.flatMap_cons, List.append_assoc]
    rfl

/-! ### One line -/

@[simp] theorem ink_indented (code : Text) : ink (indented code) = ink code := by
  unfold indented
  split
  · rename_i hempty
    rw [List.isEmpty_iff.mp hempty]
  · rw [ink_append, ink_indent, List.nil_append]

/-- A line of code keeps its ink, unless it marks a blank line. -/
theorem ink_codeOf (line : Text) :
    ink (codeOf line) = if isBlankMarker line then [] else ink line := by
  unfold codeOf
  split
  · rfl
  · cases line with
    | nil => rfl
    | cons c r =>
      simp only
      split
      · rename_i hblank
        exact (ink_cons_space (isSpace_of_isBlank hblank) r).symm
      · rfl

/-- **One line adds the ink of its contribution**, and nothing else. -/
theorem ink_feed (w : LineWrap) (line : Text) :
    ink (w.feed line).buffer = ink w.buffer ++ ink (contribution flowed w.codeBlock line) := by
  unfold feed contribution
  split
  · simp only [feedFence, ink_append, ink_indent, ink_strip, ink_newline, List.append_nil]
    split
    · rfl
    · rw [ink_startLine, ink_trimIndent]
  · split
    · rw [feedCode_eq]
      simp only [ink_append, ink_indented, ink_newline, List.append_nil, ink_codeOf]
      split
      · rfl
      · rfl
    · split
      · simp only [feedItem, ink_append, ink_indent, ink_strip, ink_newline, List.append_nil]
        split
        · rfl
        · rw [ink_startBlock]
      · rw [feedProse, ink_flow]
        simp only
        split
        · rw [ink_append, ink_newline, List.append_nil]
        · rfl

/-- The machine follows the fences and writes what its lines contribute. -/
theorem writesLines_feed :
    WritesLines feed codeBlock (fun w => ink w.buffer) (fun _ => True) flowed where
  toggles := codeBlock_feed
  keeps _ _ _ := trivial
  adds w line _ := ink_feed w line

/-- **A run** writes the ink of what its lines contribute. -/
theorem ink_buffer_feedAll (ls : List Text) : ink (feedAll ls).buffer = contributedInk flowed ls :=
  writesLines_feed.held_foldl rfl trivial rfl ls

/-- **The value of any lines has the ink of what they contribute**, line by line: no text is lost,
written twice or moved. -/
theorem ink_value_feedAll (ls : List Text) :
    ink (feedAll ls).value = contributedInk flowed ls := by
  rw [value, ink_stripEnd, ink_buffer_feedAll]

end DocMark.Comment.LineWrap
