import DocMark.Proofs.Comment.DescriptionInk
import DocMark.Proofs.Comment.Hanging

/-!
How a description ends.

Finished blocks end in ink: prose is clean, list items and fences are trimmed, and a closed code block ends
with its fence (`Draft.Inked`). Only a code block that is never closed is finished as it stands, and its
last line may be empty. So a description ends with a line feed exactly when its last fence is open and the
last line behind it is blank (`atLineStart_describe_iff`).
-/

namespace DocMark.Comment

open Text

/-! ### Lines -/

/-- A line that is empty as code: white space, or the marker of a blank line. -/
def IsBlankCode (line : Text) : Prop := isBlankMarker line = true ∨ strip line = []

instance (line : Text) : Decidable (IsBlankCode line) := inferInstanceAs (Decidable (_ ∨ _))

theorem backquote_mem_of_isFence {line : Text} (h : isFence line = true) : '`' ∈ line := by
  have hticks : "```".toList <+: line.dropWhile isBlank := List.isPrefixOf_iff_prefix.mp h
  exact (List.dropWhile_sublist isBlank).subset (hticks.subset List.mem_cons_self)

theorem ink_ne_nil_of_isFence {line : Text} (h : isFence line = true) : ink line ≠ [] :=
  ink_ne_nil_of_mem (by simp [isSpace]) (backquote_mem_of_isFence h)

theorem not_isBlankCode_of_isFence {line : Text} (h : isFence line = true) : ¬ IsBlankCode line := by
  have hmem : '`' ∈ strip line := mem_strip (by simp [isSpace]) (backquote_mem_of_isFence h)
  rintro (hmarker | hnil)
  · simp only [isBlankMarker, Bool.or_eq_true, beq_iff_eq] at hmarker
    rcases hmarker with heq | heq
    · rw [heq] at hmem
      simp at hmem
    · rw [heq] at hmem
      simp at hmem
  · rw [hnil] at hmem
    exact List.not_mem_nil hmem

theorem afterListMarker?_suffix {s r : Text} (h : afterListMarker? s = some r) : r <:+ s := by
  unfold afterListMarker? at h
  split at h
  · obtain rfl := Option.some.inj h
    exact List.suffix_cons _ _
  · obtain rfl := Option.some.inj h
    exact List.suffix_cons _ _
  · obtain rfl := Option.some.inj h
    exact List.suffix_cons _ _
  · split at h
    · rename_i hdigits hpoint
      obtain rfl := Option.some.inj h
      exact (hpoint ▸ List.suffix_cons '.' _).trans (List.dropWhile_suffix isDigit)
    · cases h

/-- A list item holds ink behind its marker. -/
theorem ink_ne_nil_of_isListItem {line : Text} (h : isListItem line = true) : ink line ≠ [] := by
  unfold isListItem at h
  split at h
  · rename_i b r hmarker
    rw [Bool.and_eq_true] at h
    obtain ⟨-, h⟩ := h
    split at h
    · rename_i c q htext
      have hc : c ∈ r.dropWhile isBlank := htext ▸ List.mem_cons_self
      have hsuffix : r <:+ line := (List.suffix_cons b r).trans
        ((afterListMarker?_suffix hmarker).trans (List.dropWhile_suffix isBlank))
      exact ink_ne_nil_of_mem (by simpa using h)
        (hsuffix.subset ((List.dropWhile_sublist isBlank).subset hc))
    · cases h
  · cases h

/-! ### Joined lines -/

theorem endsInInk_joinWith {ls : List Text} (hne : ls ≠ []) (h : ∀ l ∈ ls, EndsInInk l) (sep : Text) :
    EndsInInk (joinWith sep ls) := by
  obtain ⟨init, last, rfl⟩ := (List.eq_nil_or_concat ls).resolve_left hne
  rw [List.concat_eq_append, joinWith_concat]
  exact (h last (by simp)).append _

/-- Joined lines end with a line feed exactly when the last one is empty, if a line is empty or ends in
ink and the first one is not empty. -/
theorem atLineStart_joinWith_iff {l : Text} {ls : List Text} (hfirst : EndsInInk l)
    (h : ∀ k ∈ l :: ls, EndsInInk k ∨ k = []) :
    AtLineStart (joinWith ['\n'] (l :: ls)) ↔ (l :: ls).getLast? = some [] := by
  cases hlast : (l :: ls).getLast? with
  | none => cases List.getLast?_eq_none_iff.mp hlast
  | some last =>
    obtain ⟨init, hinit⟩ := List.getLast?_eq_some_iff.mp hlast
    rw [hinit, joinWith_concat, Option.some.injEq]
    rcases h last (hinit ▸ by simp) with hink | rfl
    · rw [atLineStart_append hink.ne_nil]
      exact iff_of_false (not_atLineStart_of_endsInInk hink) hink.ne_nil
    · -- There is a line before the empty one, and a line feed behind that.
      have hne : init ≠ [] := by
        rintro rfl
        exact hfirst.ne_nil (List.cons.inj hinit).1
      obtain ⟨pre, k, rfl⟩ := (List.eq_nil_or_concat init).resolve_left hne
      rw [List.append_nil, List.concat_eq_append, List.flatMap_append, List.flatMap_singleton,
        ← List.append_assoc]
      exact iff_of_true (atLineStart_newline _) rfl

/-! ### The invariant -/

namespace Draft

/-- Finished blocks end in ink, and so do the lines of the open block, but for empty lines of code. An open
code block begins with its fence. -/
structure Inked (d : Draft) : Prop where
  blocks : ∀ b ∈ d.blocks, EndsInInk b
  lines : ∀ l ∈ d.open_, EndsInInk l ∨ (d.inCode = true ∧ l = [])
  fence : d.inCode = true → ∃ l ls, d.open_ = l :: ls ∧ EndsInInk l

theorem Inked.lines_of_not_inCode {d : Draft} (h : d.Inked) (hcode : d.inCode = false) :
    ∀ l ∈ d.open_, EndsInInk l := by
  intro l hl
  refine (h.lines l hl).resolve_right ?_
  rintro ⟨hin, -⟩
  exact absurd (hcode.symm.trans hin) (by simp)

/-- Finishing the prose keeps finished blocks inked. -/
theorem inked_flushProse {d : Draft} (h : d.Inked) : d.flushProse.Inked := by
  unfold flushProse
  split
  · exact ⟨h.blocks, h.lines, h.fence⟩
  · rename_i hne
    refine ⟨?_, h.lines, h.fence⟩
    intro b hb
    rcases List.mem_append.mp hb with hb | hb
    · exact h.blocks b hb
    · obtain rfl := List.mem_singleton.mp hb
      exact endsInInk_cleanLine fun hnil => hne (cleanLine_eq_nil_iff.mpr hnil)

/-- Finishing an open list keeps finished blocks inked. Code need not end in ink. -/
theorem inked_flushOpen {d : Draft} (h : d.Inked) (hcode : d.inCode = false) : d.flushOpen.Inked := by
  unfold flushOpen
  split
  · exact h
  · rename_i hne
    refine ⟨?_, by simp, fun hin => absurd (hcode.symm.trans hin) (by simp)⟩
    intro b hb
    rcases List.mem_append.mp hb with hb | hb
    · exact h.blocks b hb
    · obtain rfl := List.mem_singleton.mp hb
      exact endsInInk_joinWith hne (h.lines_of_not_inCode hcode) _

/-- A line in ink can be added to what is open, and inside code an empty one too. -/
theorem Inked.addOpen {d : Draft} (h : d.Inked) {line : Text}
    (hline : EndsInInk line ∨ (d.inCode = true ∧ line = [])) : (d.addOpen line).Inked := by
  refine ⟨h.blocks, ?_, ?_⟩
  · intro l hl
    rcases List.mem_append.mp hl with hl | hl
    · exact h.lines l hl
    · obtain rfl := List.mem_singleton.mp hl
      exact hline
  · intro hcode
    obtain ⟨l, ls, hopen, hink⟩ := h.fence hcode
    refine ⟨l, ls ++ [line], ?_, hink⟩
    rw [Draft.addOpen, hopen, List.cons_append]

theorem flushOpen_addOpen (d : Draft) (line : Text) :
    (d.addOpen line).flushOpen =
      { d with open_ := [], blocks := d.blocks ++ [joinWith ['\n'] (d.open_ ++ [line])] } := by
  unfold flushOpen
  split
  · rename_i hnil
    exact absurd hnil (by simp [Draft.addOpen])
  · rfl

/-- **One line** keeps the invariant. -/
theorem inked_feed {d : Draft} (h : d.Inked) (line : Text) : (d.feed line).Inked := by
  unfold feed
  split
  · rename_i hfence
    have hline : EndsInInk (strip line) := endsInInk_strip (ink_ne_nil_of_isFence hfence)
    split
    · -- A fence closes the code, which then ends with the fence.
      rw [flushOpen_addOpen]
      refine ⟨?_, by simp, by simp⟩
      intro b hb
      rcases List.mem_append.mp hb with hb | hb
      · exact h.blocks b hb
      · obtain rfl := List.mem_singleton.mp hb
        rw [joinWith_concat]
        exact hline.append _
    · -- A fence opens the code, which then begins with the fence.
      rename_i hcode
      have hflush : d.flushProse.flushOpen.Inked := by
        refine inked_flushOpen (inked_flushProse h) ?_
        rw [(open_flushProse d).2.1]
        exact Bool.not_eq_true _ ▸ hcode
      have hopen : (d.flushProse.flushOpen.addOpen (strip line)).open_ = [strip line] := by
        rw [Draft.addOpen, open_flushOpen, List.nil_append]
      refine ⟨hflush.blocks, ?_, fun _ => ⟨strip line, [], hopen, hline⟩⟩
      intro l hl
      obtain rfl := List.mem_singleton.mp (hopen ▸ hl)
      exact Or.inl hline
  · split
    · rename_i hcode
      refine h.addOpen ?_
      split
      · exact Or.inr ⟨hcode, rfl⟩
      · by_cases hink : ink line = []
        · exact Or.inr ⟨hcode, stripEnd_eq_nil_iff.mpr hink⟩
        · exact Or.inl (endsInInk_stripEnd hink)
    · rename_i hcode
      have hout : d.inCode = false := Bool.not_eq_true _ ▸ hcode
      split
      · rename_i hitem
        have hline : EndsInInk (stripEnd line) := endsInInk_stripEnd (ink_ne_nil_of_isListItem hitem)
        split
        · exact h.addOpen (Or.inl hline)
        · have hflush := inked_flushProse h
          have hlist : ({ d.flushProse with inList := true } : Draft).Inked :=
            ⟨hflush.blocks, hflush.lines, hflush.fence⟩
          exact hlist.addOpen (Or.inl hline)
      · -- Prose is not yet in a block, and only ends the list before it.
        split
        · have hflush := inked_flushOpen h hout
          exact ⟨hflush.blocks, hflush.lines, hflush.fence⟩
        · exact ⟨h.blocks, h.lines, h.fence⟩

/-- Behind a line that leaves code open, the open block ends with an empty line exactly when the line
was blank. -/
theorem getLast?_open_feed {d : Draft} {line : Text} (hcode : (d.feed line).inCode = true) :
    (d.feed line).open_.getLast? = some [] ↔ IsBlankCode line := by
  rw [inCode_feed] at hcode
  by_cases hfence : isFence line = true
  · have hout : d.inCode = false := by simpa [hfence] using hcode
    have hne : strip line ≠ [] := fun hnil => not_isBlankCode_of_isFence hfence (Or.inr hnil)
    simp [feed, hfence, hout, Draft.addOpen, hne, not_isBlankCode_of_isFence hfence]
  · have hin : d.inCode = true := by simpa [hfence] using hcode
    have hblank : stripEnd line = [] ↔ strip line = [] :=
      stripEnd_eq_nil_iff.trans strip_eq_nil_iff.symm
    by_cases hmarker : isBlankMarker line = true
    · simp [feed, hfence, hin, Draft.addOpen, hmarker, IsBlankCode]
    · simp [feed, hfence, hin, Draft.addOpen, hmarker, IsBlankCode, hblank]

/-- After any lines the draft is inked. -/
theorem inked_foldl (ls : List Text) : (ls.foldl feed {}).Inked := by
  induction ls using List.reverseRecOn with
  | nil => exact ⟨by simp, by simp, by simp⟩
  | append_singleton ls line ih =>
    rw [List.foldl_concat]
    exact inked_feed ih line

theorem flushProse_of_prose_eq_nil {d : Draft} (h : d.prose = []) : d.flushProse = d := by
  unfold flushProse
  rw [h]
  obtain ⟨blocks, prose, open_, inCode, inList⟩ := d
  obtain rfl : prose = [] := h
  rfl

/-- **The end of a finished draft**: only code that is still open can end with a line feed. -/
theorem atLineStart_finish_iff {d : Draft} (h : d.Inked) (hset : d.Settled) :
    AtLineStart d.finish ↔ d.inCode = true ∧ d.open_.getLast? = some [] := by
  cases hcode : d.inCode with
  | false =>
    have hblocks : ∀ b ∈ d.flushOpen.flushProse.blocks, EndsInInk b :=
      (inked_flushProse (inked_flushOpen h hcode)).blocks
    refine iff_of_false ?_ (by simp)
    by_cases hnil : d.flushOpen.flushProse.blocks = []
    · rw [finish, hnil]
      exact not_atLineStart_nil
    · exact not_atLineStart_of_endsInInk (endsInInk_joinWith hnil hblocks _)
  | true =>
    obtain ⟨l, ls, hopen, hink⟩ := h.fence hcode
    have hflush : d.flushOpen.flushProse = d.flushOpen :=
      flushProse_of_prose_eq_nil ((prose_flushOpen d).1.trans (hset.prose_eq_nil (Or.inl hcode)))
    have hblocks : d.flushOpen.blocks = d.blocks ++ [joinWith ['\n'] (l :: ls)] := by
      rw [flushOpen, hopen]
    rw [finish, hflush, hblocks, joinWith_concat, atLineStart_append (joinWith_ne_nil hink.ne_nil), hopen,
      atLineStart_joinWith_iff hink fun k hk => (h.lines k (hopen ▸ hk)).imp_right And.right]
    simp

/-- Reading the lines of a description, code is left open on a blank line exactly when the fences leave it
open and the last line is blank. -/
theorem atLineStart_finish_foldl_iff (ls : List Text) :
    AtLineStart (ls.foldl feed {}).finish ↔
      insideFence ls = true ∧ ∃ line ∈ ls.getLast?, IsBlankCode line := by
  have hinside : (ls.foldl feed {}).inCode = insideFence ls := writesLines_feed.inside_foldl rfl ls
  rw [atLineStart_finish_iff (inked_foldl ls) (settled_foldl ls), hinside]
  refine and_congr_right fun hcode => ?_
  rcases List.eq_nil_or_concat ls with rfl | ⟨init, line, rfl⟩
  · simp
  · rw [List.concat_eq_append, List.foldl_concat] at *
    rw [getLast?_open_feed (hinside.trans hcode)]
    simp

end Draft

/-- **A description ends with a line feed** exactly when it ends inside code, on a blank line. -/
theorem atLineStart_describe_iff (raw : Text) :
    AtLineStart (describe raw) ↔ insideFence (lineTexts raw) = true ∧
      ∃ line ∈ (lineTexts raw).getLast?, IsBlankCode line :=
  Draft.atLineStart_finish_foldl_iff (lineTexts raw)

end DocMark.Comment
