import DocMark.Proofs.Comment.FencedBlock

/-!
The steps of the line wrap machine, each by what it does to the buffer and the flags.

Prose is written behind a *lead* that depends on the end of the buffer (`flowPiece_eq`); it never touches
the flags of blocks. Dropping a dangling indent is trimming blanks, and perhaps the line feed before them
(`trimEnd_isBlank_cases`).
-/

namespace DocMark.Comment.LineWrap

open Text

/-! ### Prose -/

/-- The buffer as it stands before new prose. `breaks` says that a new paragraph begins. -/
def lead (breaks : Bool) (s : Text) : Text :=
  if breaks then stripEnd s ++ "\n\n".toList ++ indent
  else if endsWith ['\n'] s then s ++ indent
  else if s.isEmpty then []
  else s ++ [' ']

/-- Whether prose begins a new paragraph: a marker came before it, and there is prose to part from. -/
def breaksBefore (w : LineWrap) (first : Bool) : Bool :=
  (w.paragraphBreak || !first) && !(strip w.buffer).isEmpty

/-- A piece that comes to nothing is only remembered as a break. Any other is written behind what leads to it. -/
theorem flowPiece_eq (w : LineWrap) (first : Bool) (piece : Text) :
    w.flowPiece first piece =
      if proseOf piece = [] then { w with paragraphBreak := w.paragraphBreak || !first }
      else { w with
        paragraphBreak := false
        buffer := lead (w.breaksBefore first) w.buffer ++ proseOf piece } := by
  cases hprose : proseOf piece with
  | nil =>
    cases first with
    | true => simp [flowPiece, hprose]
    | false => simp [flowPiece, hprose]
  | cons c r =>
    cases first with
    | true => simp [flowPiece, lead, breaksBefore, hprose]
    | false => simp [flowPiece, lead, breaksBefore, hprose]

/-- What every piece of a line keeps true, the line keeps true. -/
theorem flow_induction {P : LineWrap → Prop} {line : Text}
    (step : ∀ w first, ∀ p ∈ splitParagraphs line, P w → P (w.flowPiece first p)) {w : LineWrap}
    (h : P w) : P (w.flow line) := by
  unfold flow
  split
  · exact h
  · rename_i p ps hps
    rw [hps] at step
    have hfirst := step w true p List.mem_cons_self h
    refine List.foldlRecOn ps _ hfirst ?_
    intro v hv q hq
    exact step v false q (List.mem_cons_of_mem p hq) hv

theorem flags_flowPiece (w : LineWrap) (first : Bool) (piece : Text) :
    (w.flowPiece first piece).codeBlock = w.codeBlock ∧
      (w.flowPiece first piece).listBlock = w.listBlock := by
  rw [flowPiece_eq]
  split
  · exact ⟨rfl, rfl⟩
  · exact ⟨rfl, rfl⟩

/-- Prose opens and closes no block. -/
theorem flags_flow (w : LineWrap) (line : Text) :
    (w.flow line).codeBlock = w.codeBlock ∧ (w.flow line).listBlock = w.listBlock := by
  refine flow_induction (P := fun v => v.codeBlock = w.codeBlock ∧ v.listBlock = w.listBlock) ?_
    ⟨rfl, rfl⟩
  intro v first p _ hv
  obtain ⟨hcode, hlist⟩ := flags_flowPiece v first p
  exact ⟨hcode.trans hv.1, hlist.trans hv.2⟩

/-! ### The flag of fenced blocks -/

/-- Fences open and close code blocks, and nothing else does. -/
theorem codeBlock_feed (w : LineWrap) (line : Text) :
    (w.feed line).codeBlock = (w.codeBlock ^^ isFence line) := by
  unfold feed
  split
  · rename_i hfence
    simp [feedFence, hfence]
  · rename_i hfence
    simp only [hfence, Bool.xor_false]
    split
    · rw [feedCode_eq]
    · split
      · rfl
      · exact (flags_flow _ line).1

/-! ### Trimming before a block -/

/-- Trimming blanks leaves at most one line feed that trimming an indent would drop. -/
theorem trimEnd_isBlank_cases (s : Text) :
    trimEnd isBlank s = trimIndentEnd s ∨ trimEnd isBlank s = trimIndentEnd s ++ ['\n'] := by
  unfold trimIndentEnd
  split
  · rename_i hnone
    -- No blanks at the end: the text stays.
    left
    have hsplit := List.takeWhile_append_dropWhile (p := isBlank) (l := s.reverse)
    rw [hnone, List.nil_append] at hsplit
    rw [trimEnd, hsplit, List.reverse_reverse]
  · rename_i r _ hr
    right
    rw [trimEnd, hr, List.reverse_cons]
  · exact Or.inl rfl

theorem trimIndent_cases (s : Text) :
    trimIndent s = trimIndentEnd s ∨
      ∃ r, s = r ++ ['\n'] ∧ trimIndent s = trimIndentEnd r ++ ['\n'] := by
  unfold trimIndent
  split
  · rename_i r hr
    right
    exact ⟨r.reverse, by rw [← List.reverse_cons, ← hr, List.reverse_reverse], rfl⟩
  · exact Or.inl rfl

end DocMark.Comment.LineWrap
