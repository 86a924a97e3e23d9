import DocMark.Comment.Description
import DocMark.Proofs.Comment.Contribution

/-!
A description keeps the ink of the comment lines it is made of.

A draft has two pending parts, prose and an open block, which are finished in different orders at
different places. No order is wrong, because only one of the two ever holds anything (`Settled`): a draft
inside code or a list holds no prose, and any other draft has no open block. `shown_feed` is what one line
does to a settled draft, and `ink_describe` what all lines of a description come to.
-/

namespace DocMark.Comment

open Text

namespace Draft

/-- The ink that a draft will show: finished blocks, then the prose without its paragraph markers,
then the open block. -/
def shown (d : Draft) : Text :=
  d.blocks.flatMap ink ++ d.prose.flatMap (fun l => ink (replaceParagraphs [] l)) ++ d.open_.flatMap ink

/-- At most one of the pending parts holds anything. -/
structure Settled (d : Draft) : Prop where
  prose_eq_nil : d.inCode = true ∨ d.inList = true → d.prose = []
  open_eq_nil : d.inCode = false → d.inList = false → d.open_ = []

theorem Settled.prose_or_open {d : Draft} (h : d.Settled) : d.prose = [] ∨ d.open_ = [] := by
  cases hcode : d.inCode with
  | true => exact Or.inl (h.prose_eq_nil (Or.inl hcode))
  | false =>
    cases hlist : d.inList with
    | true => exact Or.inl (h.prose_eq_nil (Or.inr hlist))
    | false => exact Or.inr (h.open_eq_nil hcode hlist)

/-! ### Finishing the pending parts -/

@[simp] theorem prose_flushProse (d : Draft) : d.flushProse.prose = [] := by
  unfold flushProse
  split
  · rfl
  · rfl

@[simp] theorem open_flushOpen (d : Draft) : d.flushOpen.open_ = [] := by
  unfold flushOpen
  split
  · rename_i hnil
    exact hnil
  · rfl

/-- Finishing the prose leaves the rest of a draft alone. -/
theorem open_flushProse (d : Draft) :
    d.flushProse.open_ = d.open_ ∧ d.flushProse.inCode = d.inCode ∧ d.flushProse.inList = d.inList := by
  unfold flushProse
  split
  · exact ⟨rfl, rfl, rfl⟩
  · exact ⟨rfl, rfl, rfl⟩

/-- Finishing the open block leaves the rest of a draft alone. -/
theorem prose_flushOpen (d : Draft) :
    d.flushOpen.prose = d.prose ∧ d.flushOpen.inCode = d.inCode ∧ d.flushOpen.inList = d.inList := by
  unfold flushOpen
  split
  · exact ⟨rfl, rfl, rfl⟩
  · exact ⟨rfl, rfl, rfl⟩

@[simp] theorem shown_flushProse (d : Draft) : d.flushProse.shown = d.shown := by
  have htext : ink (cleanLine (replaceParagraphs "\n\n".toList (joinWith [' '] d.prose))) =
      d.prose.flatMap fun l => ink (replaceParagraphs [] l) := by
    rw [ink_cleanLine, ink_replaceParagraphs_joinWith rfl]
  unfold flushProse
  split
  · rename_i hnil
    rw [hnil] at htext
    simp [shown, ← htext]
  · simp only [shown, List.flatMap_append, List.flatMap_singleton, htext, List.flatMap_nil,
      List.append_nil]

/-- Finishing the open block moves it before the prose, so one of the two has to be empty. -/
theorem shown_flushOpen {d : Draft} (h : d.prose = [] ∨ d.open_ = []) :
    d.flushOpen.shown = d.shown := by
  unfold flushOpen
  split
  · rfl
  · rename_i hopen
    have hprose : d.prose = [] := h.resolve_right hopen
    simp [shown, hprose, ink_joinWith ink_newline]

@[simp] theorem shown_addOpen (d : Draft) (line : Text) :
    (d.addOpen line).shown = d.shown ++ ink line := by
  simp [shown, addOpen]

/-! ### One line -/

/-- The Markdown of a line of prose in a description: its paragraph markers only part paragraphs. -/
def paragraphText (line : Text) : Text := replaceParagraphs [] (codeToMarkdown (cleanLine line))

/-- Fences open and close code, and nothing else does. -/
theorem inCode_feed (d : Draft) (line : Text) : (d.feed line).inCode = (d.inCode ^^ isFence line) := by
  unfold feed
  split
  · rename_i hfence
    split
    · rename_i hcode
      simp [hfence, hcode]
    · rename_i hcode
      simp [hfence, hcode]
  · rename_i hfence
    simp only [hfence, Bool.xor_false]
    split
    · rfl
    · split
      · simp only [addOpen]
        split
        · rfl
        · exact (open_flushProse d).2.1
      · simp only
        split
        · exact (prose_flushOpen d).2.1
        · rfl

/-- A line keeps the draft settled, since what it opens closes what was open. -/
theorem settled_feed {d : Draft} (h : d.Settled) (line : Text) : (d.feed line).Settled := by
  unfold feed
  split
  · split
    · rename_i hcode
      have hprose : (d.addOpen (strip line)).flushOpen.prose = [] :=
        (prose_flushOpen _).1.trans (h.prose_eq_nil (Or.inl hcode))
      exact ⟨fun _ => hprose, fun _ _ => open_flushOpen _⟩
    · have hprose : d.flushProse.flushOpen.prose = [] :=
        (prose_flushOpen _).1.trans (prose_flushProse d)
      exact ⟨fun _ => hprose, fun hcode => absurd hcode (by simp)⟩
  · split
    · rename_i hcode
      exact ⟨fun _ => h.prose_eq_nil (Or.inl hcode), fun hout => absurd (hcode.symm.trans hout) (by simp)⟩
    · split
      · -- An item: the draft is in a list, and was rid of its prose when the list began.
        by_cases hlist : d.inList = true
        · simp only [hlist, if_true, addOpen]
          exact ⟨fun _ => h.prose_eq_nil (Or.inr hlist), fun _ hout => absurd hout (by simp)⟩
        · simp only [hlist, addOpen]
          exact ⟨fun _ => prose_flushProse d, fun _ hout => absurd hout (by simp)⟩
      · -- Prose: the draft is outside code and lists, and has no open block.
        rename_i hcode _
        by_cases hlist : d.inList = true
        · simp only [hlist, if_true]
          refine ⟨fun hin => ?_, fun _ _ => open_flushOpen d⟩
          rw [(prose_flushOpen d).2.1] at hin
          simp [hcode] at hin
        · simp only [hlist]
          refine ⟨fun hin => ?_, fun _ _ => ?_⟩
          · simp [hcode, hlist] at hin
          · exact h.open_eq_nil (by simpa using hcode) (by simpa using hlist)

/-- **One line shows the ink of its contribution**, behind all that was there. -/
theorem shown_feed {d : Draft} (h : d.Settled) (line : Text) :
    (d.feed line).shown = d.shown ++ ink (contribution paragraphText d.inCode line) := by
  unfold feed contribution
  split
  · split
    · rename_i hcode
      have hprose : (d.addOpen (strip line)).prose = [] := h.prose_eq_nil (Or.inl hcode)
      change (d.addOpen (strip line)).flushOpen.shown = _
      rw [shown_flushOpen (Or.inl hprose), shown_addOpen, ink_strip]
    · change (d.flushProse.flushOpen.addOpen (strip line)).shown = _
      rw [shown_addOpen, shown_flushOpen (Or.inl (prose_flushProse d)), shown_flushProse, ink_strip]
  · split
    · rw [shown_addOpen]
      split
      · rfl
      · rw [ink_stripEnd]
    · rename_i hcode
      split
      · simp only [shown_addOpen, ink_stripEnd, List.append_cancel_right_eq]
        split
        · rfl
        · exact shown_flushProse d
      · simp only
        -- New prose goes behind the finished blocks, so no block may be open.
        have hprose : ∀ e : Draft, e.open_ = [] →
            ({ e with prose := e.prose ++ [proseOf line] } : Draft).shown =
              e.shown ++ ink (paragraphText line) := by
          intro e hopen
          simp [shown, hopen, paragraphText, proseOf]
        split
        · rw [← shown_flushOpen h.prose_or_open]
          exact hprose { d.flushOpen with inList := false } (open_flushOpen d)
        · rename_i hlist
          exact hprose d (h.open_eq_nil (by simpa using hcode) (by simpa using hlist))

/-- A draft follows the fences and shows what its lines contribute. -/
theorem writesLines_feed : WritesLines feed inCode shown Settled paragraphText where
  toggles := inCode_feed
  keeps _ line h := settled_feed h line
  adds _ line h := shown_feed h line

theorem settled_empty : Settled {} := ⟨fun _ => rfl, fun _ _ => rfl⟩

theorem settled_foldl (ls : List Text) : (ls.foldl feed {}).Settled :=
  writesLines_feed.inv_foldl settled_empty ls

/-- Finishing a settled draft shows all it holds. -/
theorem ink_finish {d : Draft} (h : d.Settled) : ink d.finish = d.shown := by
  have hblank : ink "\n\n".toList = [] := rfl
  have hopen : d.flushOpen.flushProse.open_ = [] := (open_flushProse _).1.trans (open_flushOpen d)
  calc ink d.finish
      = d.flushOpen.flushProse.blocks.flatMap ink := ink_joinWith hblank _
    _ = d.flushOpen.flushProse.shown := by simp [shown, hopen]
    _ = d.shown := by rw [shown_flushProse, shown_flushOpen h.prose_or_open]

/-- **A run** shows the ink of what its lines contribute. -/
theorem ink_finish_foldl (ls : List Text) :
    ink (ls.foldl feed {}).finish = contributedInk paragraphText ls := by
  rw [ink_finish (settled_foldl ls)]
  exact writesLines_feed.held_foldl rfl settled_empty rfl ls

end Draft

/-- **A description has the ink of what its comment lines contribute**, line by line: no text is lost,
written twice or moved. -/
theorem ink_describe (raw : Text) :
    ink (describe raw) = contributedInk Draft.paragraphText (lineTexts raw) := by
  rw [describe, Draft.ink_finish_foldl]

end DocMark.Comment
