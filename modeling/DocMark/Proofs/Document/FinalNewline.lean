import DocMark.Proofs.Comment.DescriptionEnd
import DocMark.Proofs.Document.Headings
import DocMark.Proofs.Runs

/-!
The end of a document.

A document is closed by a line feed, and the question is what stands before it. Entries of tags do not end
with a line feed, because values do not and a treatment keeps that (`Treatment.Rewrites.not_atLineStart`),
and a list of groups ends as its last entry or in a label. So the body of a section ends with a line feed
only where nothing follows a description that does (`atLineStart_sectionBody_iff`), and a document ends with
two of them exactly when its last rendered section has such a body (`render_one_newline_iff`).
-/

namespace DocMark

open Text Comment

/-! ### Values and entries -/

/-- No value ends with a line feed. -/
theorem not_atLineStart_of_mem_parse {doc : Text} {tag : Tag} (h : tag ∈ (parse doc).2) :
    ¬ AtLineStart tag.value := by
  obtain ⟨chunk, -, htag⟩ := List.mem_filterMap.mp h
  unfold parseTag? at htag
  split at htag
  · split at htag
    · cases htag
    · obtain rfl := Option.some.inj htag
      exact not_atLineStart_stripEnd _
  · cases htag

/-- **A treatment leaves no line feed at the end** of an entry. -/
theorem Treatment.Rewrites.not_atLineStart {value v : Text} (h : Rewrites value v)
    (hend : ¬ AtLineStart value) : ¬ AtLineStart v := by
  cases h with
  | same => exact hend
  | code =>
    unfold spanUnlessEmpty
    split
    · exact not_atLineStart_nil
    · have hquote : EndsInInk "`".toList := ⟨'`', rfl, rfl⟩
      exact not_atLineStart_of_endsInInk (hquote.append _)
  | firstLine hx =>
    -- Below the first line the entry is the value, so it ends as the value does.
    rw [atLineStart_append_of_not (not_atLineStart_of_notMem hx),
      ← atLineStart_append_of_not (not_atLineStart_of_notMem (newline_notMem_firstLine value)),
      splitFirstLine_append]
    exact hend
  | alone hx => exact not_atLineStart_of_notMem hx

/-! ### Groups -/

theorem TagGroup.not_atLineStart_inline {v : Text} (h : ¬ AtLineStart v) : ¬ AtLineStart (inline v) := by
  unfold inline
  split
  · exact not_atLineStart_nil
  · split
    · exact h
    · rw [← List.singleton_append, atLineStart_append_of_not (not_atLineStart_of_notMem (by simp))]
      exact h

theorem not_atLineStart_flatMap {α : Type} {f : α → Text} {xs : List α}
    (h : ∀ x ∈ xs, ¬ AtLineStart (f x)) : ¬ AtLineStart (xs.flatMap f) := by
  induction xs with
  | nil => exact not_atLineStart_nil
  | cons x xs ih =>
    rw [List.flatMap_cons, atLineStart_append_of_not (h x List.mem_cons_self)]
    exact ih fun y hy => h y (List.mem_cons_of_mem x hy)

/-- A group ends in its label, or as its last entry does. -/
theorem TagGroup.not_atLineStart_render {g : TagGroup} (h : ∀ v, some v ∈ g.entries → ¬ AtLineStart v) :
    ¬ AtLineStart g.render := by
  have hlabel : ∀ label stars : Text, stars.getLast? = some '*' → ¬ AtLineStart (label ++ stars) := by
    intro label stars hlast
    have hink : EndsInInk stars := ⟨'*', hlast, rfl⟩
    exact not_atLineStart_of_endsInInk (hink.append label)
  have hbullet : ¬ AtLineStart "\n   *".toList := not_atLineStart_of_endsInInk ⟨'*', rfl, rfl⟩
  have hvalues : ∀ v ∈ g.entries.filterMap id, ¬ AtLineStart (inline v) := by
    intro v hv
    obtain ⟨e, he, rfl⟩ := List.mem_filterMap.mp hv
    exact not_atLineStart_inline (h v he)
  unfold render
  split
  · exact hlabel _ _ rfl
  · rename_i value hone
    rw [atLineStart_append_of_not (hlabel _ _ rfl)]
    exact hvalues value (hone ▸ List.mem_singleton_self value)
  · rw [atLineStart_append_of_not (hlabel _ _ rfl)]
    refine not_atLineStart_flatMap fun v hv => ?_
    rw [atLineStart_append_of_not hbullet]
    exact hvalues v hv

namespace TagGroups

/-- Adding an entry adds that entry and no other. -/
theorem entries_add_perm (name : Text) (e : Entry) (gs : TagGroups) :
    ((gs.add name e).flatMap (·.entries)).Perm (e :: gs.flatMap (·.entries)) := by
  induction gs with
  | nil => exact List.Perm.refl _
  | cons g gs ih =>
    rw [add]
    split
    · simp only [List.flatMap_cons, List.append_assoc]
      exact List.perm_middle
    · simp only [List.flatMap_cons]
      exact (ih.append_left _).trans List.perm_middle

theorem add_ne_nil (name : Text) (e : Entry) (gs : TagGroups) : gs.add name e ≠ [] := by
  cases gs with
  | nil => exact List.cons_ne_nil _ _
  | cons g gs =>
    rw [add]
    split
    · exact List.cons_ne_nil _ _
    · exact List.cons_ne_nil _ _

end TagGroups

theorem TagGroup.render_ne_nil (g : TagGroup) : g.render ≠ [] := by
  unfold render
  split
  · simp
  · simp
  · simp

/-! ### Tags -/

namespace Flavor

/-- **What all tags do**: there are new groups exactly if a tag is known, and every entry is made from a
tag. -/
theorem foldlM_addTag {f : Flavor} (hf : f.IsSpecified) {tags : List Tag} {gs gs' : TagGroups}
    (h : tags.foldlM f.addTag gs = .ok gs') :
    (gs' = [] ↔ gs = [] ∧ ∀ tag ∈ tags, f.handling? tag.key = none) ∧
      ∀ v, some v ∈ gs'.flatMap (·.entries) →
        some v ∈ gs.flatMap (·.entries) ∨ ∃ tag ∈ tags, Treatment.Rewrites tag.value v := by
  induction tags generalizing gs with
  | nil =>
    cases h
    simp
  | cons tag tags ih =>
    rw [List.foldlM_cons] at h
    obtain ⟨gs₁, hadd, hrest⟩ := exists_of_bind_eq_ok h
    obtain ⟨hnil, hentries⟩ := ih hrest
    have hmade : ∀ v, some v ∈ gs₁.flatMap (·.entries) →
        some v ∈ gs.flatMap (·.entries) ∨ Treatment.Rewrites tag.value v := by
      intro v hv
      rcases addTag_cases hadd with ⟨-, rfl⟩ | ⟨group, t, e, hhandling, hentry, rfl⟩
      · exact Or.inl hv
      · obtain ⟨e', hentry', hrewrites⟩ := Treatment.exists_entry (hf.treatment hhandling) tag.value
        obtain rfl : e' = e := Except.ok.inj (hentry'.symm.trans hentry)
        rcases List.mem_cons.mp ((gs.entries_add_perm group e').mem_iff.mp hv) with rfl | hold
        · exact Or.inr (hrewrites v rfl)
        · exact Or.inl hold
    refine ⟨?_, ?_⟩
    · rw [hnil, List.forall_mem_cons, ← and_assoc]
      refine and_congr_left fun _ => ?_
      rcases addTag_cases hadd with ⟨hnone, rfl⟩ | ⟨group, t, e, hhandling, -, rfl⟩
      · simp [hnone]
      · simp [TagGroups.add_ne_nil, hhandling]
    · intro v hv
      rcases hentries v hv with hv | ⟨tag', htag', hrewrites⟩
      · exact (hmade v hv).imp_right fun h => ⟨tag, List.mem_cons_self, h⟩
      · exact Or.inr ⟨tag', List.mem_cons_of_mem tag htag', hrewrites⟩

end Flavor

/-! ### Bodies and documents -/

namespace Document

/-- The comment ends inside code, on a blank line, and the flavor knows none of its tags. -/
def EndsInBlankCode (f : Flavor) (doc : Text) : Prop :=
  (∀ tag ∈ (parse doc).2, f.handling? tag.key = none) ∧
    insideFence (lineTexts (splitTags doc).1) = true ∧
    ∃ line ∈ (lineTexts (splitTags doc).1).getLast?, IsBlankCode line

instance (f : Flavor) (doc : Text) : Decidable (EndsInBlankCode f doc) :=
  inferInstanceAs (Decidable (_ ∧ _ ∧ _))

/-- The body of a section ends with a line feed exactly if its comment ends in blank code. -/
theorem atLineStart_sectionBody_iff {f : Flavor} (hf : f.IsSpecified) {doc body : Text}
    (h : sectionBody f doc = .ok body) : AtLineStart body ↔ EndsInBlankCode f doc := by
  obtain ⟨groups, hgroups⟩ := Flavor.exists_addTags hf (parse doc).2
  rw [sectionBody_eq, hgroups] at h
  obtain rfl := Except.ok.inj h
  obtain ⟨hnil, hentries⟩ := Flavor.foldlM_addTag hf hgroups
  have hdescription : AtLineStart (parse doc).1 ↔ _ := atLineStart_describe_iff (splitTags doc).1
  rw [EndsInBlankCode, ← hdescription]
  cases groups with
  | nil =>
    have hunknown : ∀ tag ∈ (parse doc).2, f.handling? tag.key = none := (hnil.mp rfl).2
    change AtLineStart ((if (parse doc).1.isEmpty then [] else "\n\n".toList ++ (parse doc).1) ++ []) ↔ _
    rw [List.append_nil, and_iff_right hunknown]
    split
    · rename_i hd
      rw [List.isEmpty_iff.mp hd]
    · rename_i hd
      exact atLineStart_append fun heq => hd (List.isEmpty_iff.mpr heq)
  | cons g gs =>
    have hlist : ¬ AtLineStart (TagGroups.render (g :: gs)) := by
      refine not_atLineStart_flatMap fun g' hg' => TagGroup.not_atLineStart_render fun v hv => ?_
      rcases hentries v (List.mem_flatMap.mpr ⟨g', hg', hv⟩) with hold | ⟨tag, htag, hrewrites⟩
      · cases hold
      · exact hrewrites.not_atLineStart (not_atLineStart_of_mem_parse htag)
    have hne : TagGroups.render (g :: gs) ≠ [] := by
      rw [TagGroups.render, List.flatMap_cons]
      exact List.append_ne_nil_of_left_ne_nil g.render_ne_nil _
    have hknown : ¬ ∀ tag ∈ (parse doc).2, f.handling? tag.key = none :=
      fun hall => List.cons_ne_nil g gs (hnil.mpr ⟨rfl, hall⟩)
    change AtLineStart (_ ++ (['\n'] ++ TagGroups.render (g :: gs))) ↔ _
    rw [← List.append_assoc, atLineStart_append hne]
    exact iff_of_false hlist fun hboth => hknown hboth.1

/-- The heading of a block does not end with a line feed. -/
theorem atLineStart_headed_iff {s : Section} (hs : s.line ≠ []) (hashes : Text) (body : Text → Text) :
    AtLineStart (headed hashes body s) ↔ AtLineStart (body s.doc) := by
  have hquote : EndsInInk "`".toList := ⟨'`', rfl, rfl⟩
  have hspan : EndsInInk (' ' :: codeSpan (cleanSingleLine s.line)) :=
    hquote.append (' ' :: ("`".toList ++ cleanSingleLine s.line))
  rw [headed, if_neg hs]
  exact atLineStart_append_of_not (not_atLineStart_of_endsInInk (hspan.append _)) _

/-- There are no blocks exactly if no section has a declaration. -/
theorem flatten_headedBlocks_eq_nil_iff (level : Int) (body : Text → Text) (ss : List Section) :
    (headedBlocks level body ss).flatten = [] ↔ ss.filter (·.line ≠ []) = [] := by
  induction ss generalizing level with
  | nil => exact iff_of_true rfl rfl
  | cons s ss ih =>
    rw [headedBlocks_cons, List.flatten_cons, List.append_eq_nil_iff, headed_eq_nil_iff, ih,
      List.filter_cons]
    by_cases hs : s.line = []
    · simp [hs]
    · simp [hs]

/-- **The blocks end as the body of the last section that is rendered.** -/
theorem atLineStart_flatten_headedBlocks_iff (level : Int) (body : Text → Text) (ss : List Section) :
    AtLineStart (headedBlocks level body ss).flatten ↔
      ∃ s ∈ (ss.filter (·.line ≠ [])).getLast?, AtLineStart (body s.doc) := by
  induction ss generalizing level with
  | nil => exact iff_of_false not_atLineStart_nil (by simp)
  | cons s ss ih =>
    rw [headedBlocks_cons, List.flatten_cons]
    by_cases hrest : ss.filter (·.line ≠ []) = []
    · -- No section behind this one is rendered.
      rw [(flatten_headedBlocks_eq_nil_iff _ body ss).mpr hrest, List.append_nil, List.filter_cons,
        hrest]
      by_cases hs : s.line = []
      · rw [headed_eq_nil_iff.mpr hs]
        exact iff_of_false not_atLineStart_nil (by simp [hs])
      · rw [atLineStart_headed_iff hs]
        simp [hs]
    · have hlast : ((s :: ss).filter (·.line ≠ [])).getLast? = (ss.filter (·.line ≠ [])).getLast? := by
        rw [← List.singleton_append, List.filter_append, List.getLast?_append_of_ne_nil _ hrest]
      rw [atLineStart_append (mt (flatten_headedBlocks_eq_nil_iff _ body ss).mp hrest), ih, hlast]

/-- **A document ends with exactly one line feed, but for code that is never closed.** Every source can be
rendered. Its document ends with a line feed, and the character before that is another one exactly when
the last rendered section has no known tag and its description ends inside code, on a blank line. -/
theorem render_one_newline_iff {f : Flavor} (hf : f.IsSpecified) (level : Int) (source : Text) :
    ∃ r m c, render ⟨f, level⟩ source = .ok r ∧ r.markdown = m ++ [c, '\n'] ∧
      (c = '\n' ↔ ∃ s ∈ ((Source.sections source).filter (·.line ≠ [])).getLast?,
        EndsInBlankCode f s.doc) := by
  choose body hbody using exists_sectionBody hf
  have htitle : EndsInInk (marks level ++ " Documentation".toList) :=
    EndsInInk.append ⟨'n', rfl, rfl⟩ (marks level)
  have hend : AtLineStart (marks level ++ " Documentation".toList ++
        (headedBlocks level body (Source.sections source)).flatten) ↔
      ∃ s ∈ ((Source.sections source).filter (·.line ≠ [])).getLast?, EndsInBlankCode f s.doc := by
    rw [atLineStart_append_of_not (not_atLineStart_of_endsInInk htitle),
      atLineStart_flatten_headedBlocks_iff]
    simp only [atLineStart_sectionBody_iff hf (hbody _)]
  obtain ⟨m, c, hm⟩ := (List.eq_nil_or_concat (marks level ++ " Documentation".toList ++
    (headedBlocks level body (Source.sections source)).flatten)).resolve_left (by simp)
  refine ⟨_, m, c, render_eq hbody level source, ?_, ?_⟩
  · rw [hm]
    simp
  · rw [← hend, hm, atLineStart_iff]
    simp

/-- A fence that is never closed and a blank line, with the given lines behind them. -/
def openCode (lines : String) : Text := ("/**\n * ```\n *\n" ++ lines ++ " */ int x;").toList

/-- With a tag behind the code there is one line feed at the end, and without it there are two. -/
theorem render_one_newline_iff_openCode :
    Flavor.javadoc.IsSpecified ∧
      (∃ r m, render ⟨Flavor.javadoc, 1⟩ (openCode "") = .ok r ∧ r.markdown = m ++ ['\n', '\n']) ∧
      ∃ r m c, render ⟨Flavor.javadoc, 1⟩ (openCode " * @see y\n") = .ok r ∧
        r.markdown = m ++ [c, '\n'] ∧ c ≠ '\n' := by
  have hjavadoc : Flavor.javadoc.IsSpecified := by
    intro hkind
    cases hkind
  have hopen : Source.sections (openCode "") = [⟨"int x".toList, "\n * ```\n * <p>\n ".toList⟩] := by
    decide
  have hseen : Source.sections (openCode " * @see y\n") =
      [⟨"int x".toList, "\n * ```\n * <p>\n * @see y\n ".toList⟩] := by
    decide
  obtain ⟨r, m, c, hr, hm, hc⟩ := render_one_newline_iff hjavadoc 1 (openCode "")
  obtain ⟨r', m', c', hr', hm', hc'⟩ := render_one_newline_iff hjavadoc 1 (openCode " * @see y\n")
  rw [hopen] at hc
  rw [hseen] at hc'
  refine ⟨hjavadoc, ⟨r, m, hr, ?_⟩, ⟨r', m', c', hr', hm', ?_⟩⟩
  · obtain rfl : c = '\n' := hc.mpr (by decide)
    exact hm
  · exact mt hc'.mp (by decide)

end Document

end DocMark
