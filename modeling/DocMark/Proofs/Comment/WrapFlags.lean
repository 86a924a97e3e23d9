import DocMark.Proofs.Comment.ListRuns
import Mathlib.Algebra.Ring.Parity

/-!
What the flags of the line wrap machine say about its buffer.

Each flag has its own reading: an odd number of fences was fed, the last line was a list item, and it was the first
of its list. The flags exclude and imply one another (`FlagsAgree`), and an open block has been written up to the end
of a line, whatever state it was opened in (`atLineStart_feed`). With the tidy end of buffers outside of fenced blocks
this gives the whole invariant of the machine, `consistent_feedAll`. No buffer ends with a blank, so there is never
a dangling indent to drop.
-/

namespace DocMark.Comment

open Text

/-- A final line feed of a tidy text does not hide a blank. -/
theorem Tidy.not_isBlank_before_newline {s r : Text} {c : Char} (h : Tidy s) (hs : s = r ++ [c, '\n']) :
    isBlank c = false := by
  subst hs
  have hline : Tidy (r ++ [c] ++ ['\n']) := by simpa using h
  exact hline.of_newline.not_isBlank List.getLast?_concat

namespace LineWrap

/-! ### Flags of blocks -/

/-- A list is never open inside a fenced block, and a new list is an open one. -/
structure FlagsAgree (w : LineWrap) : Prop where
  list_outside : w.codeBlock = true → w.listBlock = false
  list_of_new : w.newList = true → w.listBlock = true

/-- Prose opens no list. -/
theorem newList_flow (w : LineWrap) (line : Text) : (w.flow line).newList = w.newList := by
  refine flow_induction (P := fun v => v.newList = w.newList) (fun v first piece _ hv => ?_) rfl
  rw [flowPiece_eq]
  split
  · exact hv
  · exact hv

/-- **One line** keeps the flags in agreement. -/
theorem flagsAgree_feed {w : LineWrap} (h : w.FlagsAgree) (line : Text) : (w.feed line).FlagsAgree := by
  unfold feed
  split
  · exact ⟨fun _ => rfl, fun hnew => absurd hnew (by simp [feedFence])⟩
  · split
    · rw [feedCode_eq]
      exact ⟨h.list_outside, h.list_of_new⟩
    · rename_i hcode
      split
      · exact ⟨fun hinside => absurd hinside hcode, fun _ => rfl⟩
      · refine ⟨fun _ => (flags_flow _ line).2, fun hnew => ?_⟩
        rw [feedProse_eq, newList_flow] at hnew
        cases hnew

/-- After any lines the flags agree. -/
theorem flagsAgree_feedAll (ls : List Text) : (feedAll ls).FlagsAgree := by
  refine List.foldlRecOn ls feed (motive := FlagsAgree) ?_ fun _ hw line _ => flagsAgree_feed hw line
  exact ⟨fun _ => rfl, fun hnew => by cases hnew⟩

/-! ### Open blocks -/

/-- After any lines an open block stands at the start of a line. -/
theorem atLineStart_feedAll {ls : List Text}
    (hopen : (feedAll ls).codeBlock = true ∨ (feedAll ls).listBlock = true) : AtLineStart (feedAll ls).buffer := by
  rcases List.eq_nil_or_concat ls with rfl | ⟨init, line, rfl⟩
  · rcases hopen with hcode | hlist
    · cases hcode
    · cases hlist
  · rw [List.concat_eq_append, feedAll_append] at hopen ⊢
    exact atLineStart_feed _ line hopen

/-! ### The whole state -/

/-- What the state `w` tells of the lines `fed`, and of the end of its buffer. -/
structure Consistent (fed : List Text) (w : LineWrap) : Prop where
  codeBlock_iff : w.codeBlock = true ↔ Odd (fed.countP isFence)
  flags : w.FlagsAgree
  /-- An open block is written up to the end of a line. -/
  endsWith_newline : w.codeBlock = true ∨ w.listBlock = true → endsWith ['\n'] w.buffer = true
  /-- No blank ends the buffer. -/
  not_blank_end : ∀ r c, w.buffer = r ++ [c] → isBlank c = false
  /-- Outside of fenced blocks no blank ends its last line either. -/
  not_blank_line_end : w.codeBlock = false → ∀ r c, w.buffer = r ++ [c, '\n'] → isBlank c = false
  /-- A fence that opens a block finds no indent to drop. -/
  trimIndent_eq : w.codeBlock = false → trimIndent w.buffer = w.buffer

/-- **Any lines** leave the state consistent. -/
theorem consistent_feedAll (ls : List Text) : Consistent ls (feedAll ls) where
  codeBlock_iff := by rw [codeBlock_feedAll, insideFence, beq_iff_eq, Nat.odd_iff]
  flags := flagsAgree_feedAll ls
  endsWith_newline := atLineStart_feedAll
  not_blank_end := by
    intro r c hbuffer
    have hlast : (feedAll ls).buffer.getLast? = some c := by rw [hbuffer, List.getLast?_concat]
    cases hcode : (feedAll ls).codeBlock with
    | false => exact (tidy_feedAll ls hcode).not_isBlank hlast
    | true =>
      -- Code may end with blanks, but its line is closed.
      have hnewline := atLineStart_iff.mp (atLineStart_feedAll (Or.inl hcode))
      obtain rfl : c = '\n' := Option.some.inj (hlast.symm.trans hnewline)
      rfl
  not_blank_line_end := by
    intro hout r c hbuffer
    exact (tidy_feedAll ls hout).not_isBlank_before_newline hbuffer
  trimIndent_eq := fun hout => trimIndent_eq_self (tidy_feedAll ls hout)

-- Inside a fenced block a line may end with blanks.
example : (feedAll ["a".toList, "```".toList, "x  ".toList]).buffer = "a\n     ```\n     x  \n".toList := by decide

end LineWrap

end DocMark.Comment
