import DocMark.Proofs.Comment.Hanging
import DocMark.Proofs.Flavor.Pieces

/-!
The tag list of a section stays a Markdown list.

A value hangs below its first line, and every treatment keeps that: it rewrites the first line and leaves
the lines below it alone (`Treatment.exists_hanging_entry`). In the list, the first line of a value stands
behind a label or a bullet and the others are empty or indented, so no line of the list begins with
anything else (`exists_render_isListLine`).
-/

namespace DocMark

open Text Comment

/-! ### Entries -/

/-- A new first line keeps the lines below it. -/
theorem hangs_append_splitFirstLine {value x : Text} (h : Hangs value) (hx : '\n' ∉ x) :
    Hangs (x ++ (splitFirstLine value).2) := by
  rw [Hangs, lowerLines_append_of_notMem hx,
    ← lowerLines_append_of_notMem (newline_notMem_firstLine value), splitFirstLine_append]
  exact h

namespace Treatment

/-- The treatment says how types are written, if it writes any. -/
def IsSpecified (t : Treatment) : Prop := t ≠ .typedName .unspecified ∧ t ≠ .typed .unspecified

instance (t : Treatment) : Decidable t.IsSpecified := inferInstanceAs (Decidable (_ ∧ _))

/-- What an entry may be made of a value: the value, the value as code, or a new first line, above the other
lines or alone. -/
inductive Rewrites (value : Text) : Text → Prop where
  | same : Rewrites value value
  | code : Rewrites value (spanUnlessEmpty value)
  | firstLine {x : Text} (hx : '\n' ∉ x) : Rewrites value (x ++ (splitFirstLine value).2)
  | alone {x : Text} (hx : '\n' ∉ x) : Rewrites value x

/-- The tokens of the first line, and a new first line above the others. -/
theorem headAndRest_lines (value : Text) :
    '\n' ∉ (headAndRest value).1 ∧ '\n' ∉ (headAndRest value).2.1 ∧
      ∀ x, '\n' ∉ x → Rewrites value (x ++ (headAndRest value).2.2) := by
  unfold headAndRest
  split
  · rename_i first rest tail htokens
    obtain ⟨hnone, rfl⟩ := tokenizeHead_eq_ok htokens
    exact ⟨hnone first (by simp), hnone rest (by simp), fun x hx => .firstLine hx⟩
  · refine ⟨List.not_mem_nil, List.not_mem_nil, fun x hx => ?_⟩
    rw [List.append_nil]
    exact .alone hx

/-- A typed value always has an entry, which rewrites it. -/
theorem exists_typedNameEntry {style : TypeStyle} (hstyle : style ≠ .unspecified) (value : Text) :
    ∃ out, typedNameEntry style value = .ok out ∧ Rewrites value out := by
  unfold typedNameEntry
  split
  · rename_i type name rest tail htokens
    obtain ⟨hnone, rfl⟩ := tokenizeHead_eq_ok htokens
    have hname : '\n' ∉ name := hnone name (by simp)
    have hrest : '\n' ∉ rest := hnone rest (by simp)
    obtain ⟨head, hhead, hline⟩ := TypeStyle.exists_formatTypeAndName hstyle (hnone type (by simp)) hname
    obtain ⟨accepted, haccepted⟩ := TypeStyle.exists_acceptsName hstyle type name
    -- Whatever is made of the second token, the text behind the head is on the first line.
    have hentry : ∀ isProse : Bool,
        Rewrites value (joinEntry [head, if isProse then strip (name ++ ' ' :: rest) else rest] ++
          (splitFirstLine value).2) := by
      intro isProse
      refine .firstLine (newline_notMem_pair hline ?_)
      cases isProse with
      | true =>
        have hjoined : '\n' ∉ name ++ ' ' :: rest := by simp [hname, hrest]
        exact fun hmem => hjoined ((strip_sublist _).subset hmem)
      | false => exact hrest
    rw [hhead, haccepted]
    cases name.isEmpty with
    | true => exact ⟨_, rfl, hentry false⟩
    | false => exact ⟨_, rfl, hentry !accepted⟩
  · exact ⟨[], rfl, .alone List.not_mem_nil⟩

/-- **Every treatment leaves an entry**, and it rewrites no line but the first, except for the quotes of
code. -/
theorem exists_entry {t : Treatment} (ht : t.IsSpecified) (value : Text) :
    ∃ e, t.entry value = .ok e ∧ ∀ v ∈ e, Rewrites value v := by
  obtain ⟨hfirst, hrest, hlower⟩ := headAndRest_lines value
  cases t with
  | flag => exact ⟨none, rfl, by simp⟩
  | text => exact ⟨some value, rfl, by simpa using .same⟩
  | code => exact ⟨some (spanUnlessEmpty value), rfl, by simpa using .code⟩
  | leadingCode =>
    refine ⟨_, rfl, ?_⟩
    rintro v ⟨⟩
    exact hlower _ (newline_notMem_pair (newline_notMem_spanUnlessEmpty hfirst) hrest)
  | typedName style =>
    have hstyle : style ≠ .unspecified := fun heq => ht.1 (heq ▸ rfl)
    obtain ⟨out, hout, hrewrites⟩ := exists_typedNameEntry hstyle value
    refine ⟨some out, ?_, by simpa using hrewrites⟩
    rw [entry, hout]
    rfl
  | typed style =>
    have hstyle : style ≠ .unspecified := fun heq => ht.2 (heq ▸ rfl)
    obtain ⟨head, hhead, hline⟩ := TypeStyle.exists_formatType hstyle hfirst
    refine ⟨some (joinEntry [head, (headAndRest value).2.1] ++ (headAndRest value).2.2), ?_, ?_⟩
    · simp only [entry, hhead]
      rfl
    · simpa using hlower _ (newline_notMem_pair hline hrest)

/-- What a hanging value is rewritten to hangs. -/
theorem Rewrites.hangs {value v : Text} (h : Rewrites value v) (hvalue : Hangs value)
    (hend : ¬ AtLineStart value) : Hangs v := by
  cases h with
  | same => exact hvalue
  | code =>
    unfold spanUnlessEmpty
    split
    · exact Hangs.of_notMem List.not_mem_nil
    · -- The closing quote goes behind the last line, which is not empty.
      have hclosed : Hangs (value ++ "`".toList) := hvalue.append hend (by decide)
      rw [codeSpan, List.append_assoc, Hangs, lowerLines_append_of_notMem (by decide)]
      exact hclosed
  | firstLine hx => exact hangs_append_splitFirstLine hvalue hx
  | alone hx => exact Hangs.of_notMem hx

/-- **Every treatment keeps a value hanging.** -/
theorem exists_hanging_entry {t : Treatment} (ht : t.IsSpecified) {value : Text} (h : Hangs value)
    (hend : ¬ AtLineStart value) : ∃ e, t.entry value = .ok e ∧ ∀ v ∈ e, Hangs v := by
  obtain ⟨e, he, hrewrites⟩ := exists_entry ht value
  exact ⟨e, he, fun v hv => (hrewrites v hv).hangs h hend⟩

end Treatment

/-! ### Groups -/

/-- A line of a tag list: empty, a label, a bullet, or indented below one of them. -/
def IsListLine (line : Text) : Prop :=
  line = [] ∨ " * **".toList <+: line ∨ "   *".toList <+: line ∨ indent <+: line

theorem isListLine_of_isHangingLine {line : Text} (h : IsHangingLine line) : IsListLine line :=
  h.imp_right fun hindent => Or.inr (Or.inr hindent)

namespace TagGroup

/-- The label is one line, and all texts below it hang. -/
structure Hanging (g : TagGroup) : Prop where
  name : '\n' ∉ g.name
  entries : ∀ v, some v ∈ g.entries → Hangs v

theorem hangs_inline {v : Text} (h : Hangs v) : Hangs (inline v) := by
  unfold inline
  split
  · exact h
  · split
    · exact h
    · rw [← List.singleton_append, Hangs, lowerLines_append_of_notMem (by decide)]
      exact h

/-- A text that hangs, behind a label or a bullet. -/
theorem isListLine_item {bullet s : Text} (hbullet : '\n' ∉ bullet)
    (hlead : ∀ r, IsListLine (bullet ++ r)) (h : Hangs s) : ∀ l ∈ lines (bullet ++ s), IsListLine l := by
  intro l hl
  rw [lines_append_of_notMem hbullet] at hl
  obtain ⟨first, lower, hlines⟩ := List.exists_cons_of_ne_nil (lines_ne_nil s)
  rw [hlines, List.modifyHead_cons] at hl
  rcases List.mem_cons.mp hl with rfl | hmem
  · exact hlead first
  · have hhangs := h l
    rw [hlines, List.tail_cons] at hhangs
    exact isListLine_of_isHangingLine (hhangs hmem)

/-- A group begins a line, and all its lines are lines of the list. -/
theorem exists_render {g : TagGroup} (h : g.Hanging) :
    ∃ b, g.render = '\n' :: b ∧ ∀ l ∈ lines b, IsListLine l := by
  have hlabel : ∀ stars s, '\n' ∉ stars → Hangs s →
      ∀ l ∈ lines (" * **".toList ++ (g.name ++ stars) ++ s), IsListLine l := by
    intro stars s hstars hs
    refine isListLine_item (by simp [h.name, hstars]) (fun r => ?_) hs
    rw [List.append_assoc]
    exact Or.inr (Or.inl (List.prefix_append _ _))
  have hnil : Hangs [] := Hangs.of_notMem List.not_mem_nil
  have hvalues : ∀ v ∈ g.entries.filterMap id, Hangs v := by
    intro v hv
    obtain ⟨e, he, hev⟩ := List.mem_filterMap.mp hv
    exact h.entries v (by rwa [← show e = some v from hev])
  unfold render
  split
  · exact ⟨" * **".toList ++ (g.name ++ "**".toList) ++ [], by simp, hlabel _ [] (by decide) hnil⟩
  · rename_i value hone
    have hvalue : Hangs value := hvalues value (by rw [hone]; exact List.mem_singleton_self value)
    exact ⟨" * **".toList ++ (g.name ++ ":**".toList) ++ inline value, by simp,
      hlabel _ _ (by decide) (hangs_inline hvalue)⟩
  · -- The label has a line to itself, and every value begins a new one.
    have hopen : LowerLines IsListLine
        ([] ++ '\n' :: (" * **".toList ++ (g.name ++ ":**".toList) ++ [])) :=
      lowerLines_append_newline.mpr
        ⟨lowerLines_of_notMem List.not_mem_nil, hlabel _ [] (by decide) hnil⟩
    have hitems : ∀ v ∈ g.entries.filterMap id, ∃ b, "\n   *".toList ++ inline v = '\n' :: b ∧
        ∀ l ∈ lines b, IsListLine l := by
      intro v hv
      refine ⟨"   *".toList ++ inline v, rfl, ?_⟩
      refine isListLine_item (by decide) (fun r => ?_) (hangs_inline (hvalues v hv))
      exact Or.inr (Or.inr (Or.inl (List.prefix_append _ _)))
    have hall := hopen.append_flatMap hitems
    rw [List.nil_append, List.cons_append, ← List.nil_append ('\n' :: _)] at hall
    refine ⟨_, ?_, (lowerLines_append_newline.mp hall).2⟩
    simp

end TagGroup

namespace TagGroups

def Hanging (gs : TagGroups) : Prop := ∀ g ∈ gs, g.Hanging

/-- An entry that hangs keeps the groups hanging. -/
theorem hanging_add {gs : TagGroups} (h : gs.Hanging) {name : Text} (hname : '\n' ∉ name) {e : Entry}
    (he : ∀ v ∈ e, Hangs v) : (gs.add name e).Hanging := by
  induction gs with
  | nil =>
    intro g hg
    obtain rfl := List.mem_singleton.mp hg
    refine ⟨hname, ?_⟩
    intro v hv
    exact he v (List.mem_singleton.mp hv).symm
  | cons g gs ih =>
    have hg := h g List.mem_cons_self
    have hgs : Hanging gs := fun g' hg' => h g' (List.mem_cons_of_mem g hg')
    rw [add]
    split
    · -- The entry joins those of its group.
      intro g' hg'
      rcases List.mem_cons.mp hg' with rfl | hmem
      · refine ⟨hg.name, ?_⟩
        intro v hv
        rcases List.mem_append.mp hv with hold | hnew
        · exact hg.entries v hold
        · exact he v (List.mem_singleton.mp hnew).symm
      · exact hgs g' hmem
    · intro g' hg'
      rcases List.mem_cons.mp hg' with rfl | hmem
      · exact hg
      · exact ih hgs g' hmem

/-- All lines of hanging groups are lines of the list. -/
theorem isListLine_render {gs : TagGroups} (h : gs.Hanging) : ∀ l ∈ lines gs.render, IsListLine l := by
  have hlower : LowerLines IsListLine ([] ++ gs.flatMap TagGroup.render) :=
    LowerLines.append_flatMap (lowerLines_of_notMem List.not_mem_nil)
      fun g hg => TagGroup.exists_render (h g hg)
  cases gs with
  | nil =>
    intro l hl
    obtain rfl : l = [] := by simpa [render, lines, splitAt] using hl
    exact Or.inl rfl
  | cons g gs =>
    -- The first group begins a new line, so the line before it is empty.
    obtain ⟨b, hb, -⟩ := TagGroup.exists_render (h g List.mem_cons_self)
    have hfirst : lines (render (g :: gs)) = [] :: lines (b ++ gs.flatMap TagGroup.render) := by
      rw [render, List.flatMap_cons, hb]
      exact lines_append_newline [] _
    intro l hl
    rw [hfirst] at hl
    rcases List.mem_cons.mp hl with rfl | hmem
    · exact Or.inl rfl
    · apply hlower l
      rw [List.nil_append]
      change l ∈ (lines (render (g :: gs))).tail
      rw [hfirst]
      exact hmem

end TagGroups

/-! ### The list of a flavor -/

namespace Flavor

/-- Labels are one line, and the flavors that can be asked for say how types are written. -/
theorem specified_of_handling? {f : Flavor} (hf : f ∈ named) {key group : Text} {t : Treatment}
    (h : f.handling? key = some (group, t)) : '\n' ∉ group ∧ t.IsSpecified := by
  have hknown : ∀ f ∈ named, ∀ e ∈ knownTags f.kind, '\n' ∉ e.2.1.toList ∧ e.2.2.IsSpecified := by
    decide
  obtain ⟨⟨k, g, t'⟩, hfind, heq⟩ := Option.map_eq_some_iff.mp h
  obtain ⟨rfl, rfl⟩ : g.toList = group ∧ t' = t := by simpa using heq
  exact hknown f hf _ (List.mem_of_find?_eq_some hfind)

/-- A tag of a named flavor keeps the groups hanging. -/
theorem exists_addTag {f : Flavor} (hf : f ∈ named) {gs : TagGroups} (h : gs.Hanging) {tag : Tag}
    (hvalue : Hangs tag.value) (hend : ¬ AtLineStart tag.value) :
    ∃ gs', f.addTag gs tag = .ok gs' ∧ gs'.Hanging := by
  cases hhandling : f.handling? tag.key with
  | none => exact ⟨gs, by rw [addTag, hhandling], h⟩
  | some handling =>
    obtain ⟨hname, hspec⟩ := specified_of_handling? hf hhandling
    obtain ⟨e, he, hhangs⟩ := Treatment.exists_hanging_entry hspec hvalue hend
    refine ⟨gs.add handling.1 e, ?_, TagGroups.hanging_add h hname hhangs⟩
    rw [addTag, hhandling]
    simp only [he]
    rfl

/-- Any tags keep the groups hanging. -/
theorem exists_foldlM_addTag {f : Flavor} (hf : f ∈ named) {tags : List Tag}
    (htags : ∀ tag ∈ tags, Hangs tag.value ∧ ¬ AtLineStart tag.value) {gs : TagGroups}
    (h : gs.Hanging) : ∃ gs', tags.foldlM f.addTag gs = .ok gs' ∧ gs'.Hanging := by
  induction tags generalizing gs with
  | nil => exact ⟨gs, rfl, h⟩
  | cons tag tags ih =>
    obtain ⟨hvalue, hend⟩ := htags tag List.mem_cons_self
    obtain ⟨gs₁, hadd, hgs₁⟩ := exists_addTag hf h hvalue hend
    rw [List.foldlM_cons, hadd]
    exact ih (fun t ht => htags t (List.mem_cons_of_mem tag ht)) hgs₁

/-- **The tag list never breaks out of its Markdown list.** Tags whose values were built from lines have
groups in every flavor, and each line of their list is empty, a label, a bullet or indented. -/
theorem exists_render_isListLine {f : Flavor} (hf : f ∈ named) {tags : List Tag}
    (htags : ∀ tag ∈ tags, ∃ ls : List Text,
      (∀ l ∈ ls, '\n' ∉ l) ∧ tag.value = (LineWrap.feedAll ls).value) :
    ∃ gs, f.addTags tags = .ok gs ∧ ∀ l ∈ lines gs.render, IsListLine l := by
  have hvalues : ∀ tag ∈ tags, Hangs tag.value ∧ ¬ AtLineStart tag.value := by
    intro tag htag
    obtain ⟨ls, hls, heq⟩ := htags tag htag
    rw [heq]
    exact LineWrap.hangs_value hls
  have hnone : TagGroups.Hanging [] := fun g hg => absurd hg List.not_mem_nil
  obtain ⟨gs, hgs, hhanging⟩ := exists_foldlM_addTag hf hvalues hnone
  exact ⟨gs, hgs, TagGroups.isListLine_render hhanging⟩

/-- Two parameters, the second with a list, and a receiver that is a fenced block without its end. -/
def blockTags : List Tag :=
  [⟨"param".toList, "\x7bint\x7d x".toList⟩,
    ⟨"param".toList, "\x7bint\x7d y either\n\n     - one\n     - two\n\n     or none".toList⟩,
    ⟨"this".toList, "\n     ```\n     a\n\n     b".toList⟩]

/-- A list and an open block of code stay below their bullets. -/
theorem exists_render_isListLine_blocks :
    jsdoc ∈ named ∧
      (∀ tag ∈ blockTags, ∃ ls : List Text,
        (∀ l ∈ ls, '\n' ∉ l) ∧ tag.value = (LineWrap.feedAll ls).value) ∧
      ∃ gs, jsdoc.addTags blockTags = .ok gs ∧ ∀ l ∈ lines gs.render, IsListLine l := by
  have hjsdoc : jsdoc ∈ named := by simp [named]
  have htags : ∀ tag ∈ blockTags, ∃ ls : List Text,
      (∀ l ∈ ls, '\n' ∉ l) ∧ tag.value = (LineWrap.feedAll ls).value := by
    intro tag htag
    simp only [blockTags, List.mem_cons, List.not_mem_nil, or_false] at htag
    rcases htag with rfl | rfl | rfl
    · exact ⟨[" \x7bint\x7d x".toList], by decide, by decide⟩
    · exact ⟨[" \x7bint\x7d y".toList, " either".toList, " - one".toList, " - two".toList,
        " <p> or".toList, " none".toList], by decide, by decide⟩
    · exact ⟨[[], " ```".toList, " a".toList, " <p>".toList, " b".toList], by decide, by decide⟩
  exact ⟨hjsdoc, htags, exists_render_isListLine hjsdoc htags⟩

end Flavor

end DocMark
