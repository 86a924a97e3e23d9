import DocMark.Proofs.Comment.DescriptionEnd

/-!
Fenced blocks anywhere in a value.

Before a block is opened, the machine drops a dangling indent and goes to the start of a line. What that does
depends on how the buffer ends. Outside of a fenced block every buffer is *tidy*: before its final line feeds
it ends in ink, whatever lines were fed (`tidy_feedAll`). So there is never an indent to drop, and a block
begins right behind the buffer, on a line of its own. `feedAll_append_fenced` gives the whole state after a
block.
-/

namespace DocMark.Comment

open Text

theorem endsInInk_proseOf {piece : Text} (h : proseOf piece ≠ []) : EndsInInk (proseOf piece) := by
  refine endsInInk_codeToMarkdown (endsInInk_cleanLine fun hnone => h ?_)
  rw [proseOf, cleanLine_eq_nil_iff.mpr hnone]
  rfl

/-! ### Tidy texts -/

/-- Before its final line feeds the text is empty or ends in ink. -/
def Tidy (s : Text) : Prop := ∀ c, (trimEnd (· == '\n') s).getLast? = some c → isSpace c = false

theorem tidy_nil : Tidy [] := by
  rintro c ⟨⟩

/-- Ink at the end is tidy, with no line feeds behind it. -/
theorem tidy_of_endsInInk {s : Text} (h : EndsInInk s) : Tidy s := by
  obtain ⟨c, hlast, hink⟩ := h
  have hself : trimEnd (· == '\n') s = s := by
    refine trimEnd_eq_self fun d hd => ?_
    obtain rfl : c = d := Option.some.inj (hlast.symm.trans hd)
    refine beq_eq_false_iff_ne.mpr ?_
    rintro rfl
    cases hink
  intro d hd
  rw [hself, hlast] at hd
  exact Option.some.inj hd ▸ hink

namespace Tidy

variable {s : Text}

theorem newline (h : Tidy s) : Tidy (s ++ ['\n']) := by
  rwa [Tidy, trimEnd_append_of_all s (by simp)]

theorem of_newline (h : Tidy (s ++ ['\n'])) : Tidy s := by
  rwa [Tidy, trimEnd_append_of_all s (by simp)] at h

/-- The end of a tidy text is a line feed or ink. -/
theorem not_isBlank (h : Tidy s) {c : Char} (hc : s.getLast? = some c) : isBlank c = false := by
  by_cases hbreak : c = '\n'
  · rw [hbreak]
    rfl
  · obtain ⟨front, rfl⟩ := List.getLast?_eq_some_iff.mp hc
    have hend : trimEnd (· == '\n') (front ++ [c]) = front ++ [c] :=
      trimEnd_append_singleton front (beq_eq_false_iff_ne.mpr hbreak)
    have hink := h c (by rw [hend, hc])
    exact Bool.eq_false_iff.mpr fun hblank => by simp [isSpace_of_isBlank hblank] at hink

end Tidy

namespace LineWrap

/-! ### The buffer before a block -/

/-- A tidy text has no dangling indent. -/
theorem trimIndentEnd_eq_self {s : Text} (h : Tidy s) : trimIndentEnd s = s := by
  have hnone : s.reverse.takeWhile isBlank = [] := by
    refine List.takeWhile_eq_nil_iff.mpr fun hlen hblank => ?_
    have hlast : s.getLast? = some (s.reverse.get ⟨0, hlen⟩) := by
      rw [← List.head?_reverse, List.head?_eq_getElem?, List.getElem?_eq_getElem hlen]
      rfl
    rw [h.not_isBlank hlast] at hblank
    cases hblank
  rw [trimIndentEnd, hnone]

/-- A tidy buffer has no dangling indent. -/
theorem trimIndent_eq_self {s : Text} (h : Tidy s) : trimIndent s = s := by
  rcases trimIndent_cases s with heq | ⟨r, rfl, heq⟩
  · rw [heq, trimIndentEnd_eq_self h]
  · rw [heq, trimIndentEnd_eq_self h.of_newline]

/-- The text, with a line feed behind it unless it ends with one. -/
def lineStart (s : Text) : Text := if endsWith ['\n'] s then s else s ++ ['\n']

theorem startLine_eq_lineStart {s : Text} (h : Tidy s) : startLine s = lineStart s := by
  unfold startLine lineStart
  split
  · rename_i hempty
    rw [List.isEmpty_iff.mp hempty]
    rfl
  · rw [trimEnd_eq_self fun c hc => h.not_isBlank hc]

/-! ### Reachable buffers -/

def TidyOutside (w : LineWrap) : Prop := w.codeBlock = false → Tidy w.buffer

/-- Prose keeps the buffer tidy. -/
theorem tidy_flow {w : LineWrap} (h : Tidy w.buffer) (line : Text) : Tidy (w.flow line).buffer := by
  refine flow_induction (P := fun v => Tidy v.buffer) (fun v first piece _ hv => ?_) h
  rw [flowPiece_eq]
  split
  · exact hv
  · rename_i hprose
    exact tidy_of_endsInInk ((endsInInk_proseOf hprose).append _)

/-- A line of its own is trimmed and ends with one line feed. -/
theorem tidy_ownLine {line : Text} (h : ink line ≠ []) (s : Text) :
    Tidy (s ++ indent ++ strip line ++ ['\n']) :=
  (tidy_of_endsInInk ((endsInInk_strip h).append _)).newline

/-- **One line** keeps the buffer tidy. A fence that closes a block makes it tidy again, since what stands
inside the block is no longer the end. -/
theorem tidyOutside_feed {w : LineWrap} (h : w.TidyOutside) (line : Text) : (w.feed line).TidyOutside := by
  unfold feed
  split
  · rename_i hfence
    exact fun _ => tidy_ownLine (ink_ne_nil_of_isFence hfence) _
  · split
    · rename_i hcode
      rw [feedCode_eq]
      exact fun hout => absurd (hcode.symm.trans hout) (by simp)
    · rename_i hcode
      have htidy := h (by simpa using hcode)
      split
      · rename_i hitem
        exact fun _ => tidy_ownLine (ink_ne_nil_of_isListItem hitem) _
      · refine fun _ => tidy_flow ?_ line
        dsimp only
        split
        · exact htidy.newline
        · exact htidy

/-- **Any lines** leave a tidy buffer, unless the last fence is open. -/
theorem tidy_feedAll (ls : List Text) : (feedAll ls).TidyOutside :=
  List.foldlRecOn ls feed (motive := TidyOutside) (fun _ => tidy_nil)
    fun _ hw line _ => tidyOutside_feed hw line

/-! ### A block behind any lines -/

/-- What a line of code adds to a value: a line feed alone if it is a blank marker, empty or a single blank,
and else the line without one blank in front, on a line of its own behind the indent. -/
def codeEntry (line : Text) : Text :=
  if isBlankMarker line = true ∨ line = [] ∨ line = [' '] ∨ line = ['\t'] then ['\n']
  else indent ++ (if line.head?.any isBlank then line.tail else line) ++ ['\n']

/-- A line of code adds its entry. -/
theorem codeEntry_eq (line : Text) : indented (codeOf line) ++ ['\n'] = codeEntry line := by
  unfold codeEntry codeOf
  by_cases hmarker : isBlankMarker line = true
  · simp [hmarker, indented]
  · cases line with
    | nil => simp [hmarker, indented]
    | cons c r =>
      by_cases hblank : isBlank c = true
      · have hc : c = ' ' ∨ c = '\t' := by simpa [isBlank] using hblank
        cases r with
        | nil => rcases hc with rfl | rfl <;> simp [hmarker, hblank, indented]
        | cons d q => simp [hmarker, hblank, indented]
      · have hspace : c ≠ ' ' := by
          rintro rfl
          exact hblank rfl
        have htab : c ≠ '\t' := by
          rintro rfl
          exact hblank rfl
        simp [hmarker, hblank, hspace, htab, indented]

/-- **Fenced code is reproduced exactly, whatever was fed before.** A fence, lines that are no fences and a
closing fence leave no block open and the pending paragraph break as it was. They add the two fences, trimmed
and indented, and in between one entry for each line of code, behind the buffer as it stood, which is only
brought to the start of a line. So nothing in the block is interpreted. -/
theorem feedAll_append_fenced {before code : List Text} {f g : Text}
    (hout : (feedAll before).codeBlock = false) (hf : isFence f = true) (hg : isFence g = true)
    (hcode : ∀ line ∈ code, isFence line = false) :
    feedAll (before ++ f :: code ++ [g]) =
      { feedAll before with
        codeBlock := false
        listBlock := false
        newList := false
        buffer := lineStart (feedAll before).buffer ++ indent ++ strip f ++ ['\n'] ++
          code.flatMap codeEntry ++ indent ++ strip g ++ ['\n'] } := by
  have htidy := tidy_feedAll before hout
  have hopen : (feedAll before).feed f =
      { feedAll before with
        codeBlock := true
        listBlock := false
        newList := false
        buffer := lineStart (feedAll before).buffer ++ indent ++ strip f ++ ['\n'] } := by
    rw [feed, if_pos hf, feedFence, hout, ← startLine_eq_lineStart htidy, trimIndent_eq_self htidy]
    rfl
  have hentries : (code.flatMap fun line => indented (codeOf line) ++ ['\n']) = code.flatMap codeEntry :=
    List.flatMap_congr fun line _ => codeEntry_eq line
  rw [feedAll, List.append_assoc, List.foldl_append, List.cons_append, List.foldl_cons, List.foldl_append,
    ← feedAll, hopen, foldl_feed_code rfl hcode, hentries, List.foldl_cons, List.foldl_nil, feed, if_pos hg]
  rfl

/-- A block behind a list that a paragraph marker closed, with a list item, a marker, runs of spaces and a
single tab as code. -/
theorem feedAll_append_fenced_afterList :
    (feedAll ["- one".toList, "<p>".toList]).codeBlock = false ∧
      feedAll ["- one".toList, "<p>".toList, " ```java".toList, " - a  b".toList, " <P> ".toList,
          "\t".toList, "```  ".toList] =
        { paragraphBreak := true
          buffer := "\n     - one\n\n     ```java\n     - a  b\n\n\n     ```\n".toList } := by
  have hbefore : feedAll ["- one".toList, "<p>".toList] =
      { paragraphBreak := true, buffer := "\n     - one\n\n".toList } := rfl
  have hcode : ∀ line ∈ [" - a  b".toList, " <P> ".toList, "\t".toList], isFence line = false := by decide
  have hout : (feedAll ["- one".toList, "<p>".toList]).codeBlock = false := by rw [hbefore]
  have hblock := feedAll_append_fenced (f := " ```java".toList) (g := "```  ".toList) hout rfl rfl hcode
  rw [hbefore] at hblock
  exact ⟨hout, hblock⟩

end LineWrap

end DocMark.Comment
