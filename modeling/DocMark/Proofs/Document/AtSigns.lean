import DocMark.Proofs.Comment.AtSigns
import DocMark.Proofs.Document.Totality
import DocMark.Proofs.Runs

/-!
At signs in the body of a section.

No treatment of a tag repeats a part of the tag's value, and labels hold no at sign. With what parsing
drops, the body of a section lacks at least the at sign of every tag line (`count_sectionBody_le`).
-/

namespace DocMark

open Text

/-! ### Entries -/

theorem count_joinEntry_le (pieces : List Text) :
    (joinEntry pieces).count '@' ≤ pieces.flatten.count '@' := by
  rw [joinEntry, count_joinWith (by decide), List.flatten_filter_ne_nil]

theorem count_spanUnlessEmpty (s : Text) : (spanUnlessEmpty s).count '@' = s.count '@' := by
  cases s with
  | nil => rfl
  | cons c r => exact count_codeSpan (by decide) _

/-- The tokens of a value and its other lines. -/
theorem count_tokenizeHead_le {limit : Int} {value tail : Text} {tokens : List Text}
    (h : tokenizeHead limit value = .ok (tokens, tail)) :
    tokens.flatten.count '@' + tail.count '@' ≤ value.count '@' := by
  obtain ⟨hsub, rfl⟩ := tokenizeHead_sublist h
  have htokens := hsub.count_le '@'
  have hvalue := congrArg (List.count '@') (splitFirstLine_append value)
  rw [List.count_append] at hvalue
  omega

namespace TypeStyle

theorem count_unwrap?_le {token inner : Text} (h : unwrap? token = some inner) :
    inner.count '@' ≤ token.count '@' :=
  (unwrap?_sublist h).count_le '@'

/-- The Markdown of a type holds no more at signs than the type. -/
theorem count_formatType_le {style : TypeStyle} {type out : Text}
    (h : style.formatType type = .ok out) : out.count '@' ≤ type.count '@' := by
  cases style with
  | dollar =>
    obtain rfl := Except.ok.inj h
    rw [count_spanUnlessEmpty]
  | braced =>
    obtain rfl := Except.ok.inj h
    rw [count_spanUnlessEmpty]
    cases hin : unwrap? type with
    | none => exact Nat.le_refl _
    | some inner => exact count_unwrap?_le hin
  | unspecified => exact absurd h (by simp [formatType])

/-- What is written of a type and a name: no more than both, and without the name if it is not
accepted. -/
theorem count_formatTypeAndName_le {style : TypeStyle} {type name out : Text}
    (h : style.formatTypeAndName type name = .ok out) :
    out.count '@' ≤ type.count '@' + name.count '@' ∧
      (style.acceptsName type name = .ok false → out.count '@' ≤ type.count '@') := by
  have hpair : ∀ s t : Text, (joinEntry [spanUnlessEmpty s, spanUnlessEmpty t]).count '@' ≤
      t.count '@' + s.count '@' := by
    intro s t
    refine (count_joinEntry_le _).trans ?_
    simp only [List.flatten_cons, List.flatten_nil, List.append_nil, List.count_append,
      count_spanUnlessEmpty]
    omega
  cases style with
  | dollar =>
    obtain rfl := Except.ok.inj h
    cases hname : isDollarName name with
    | true =>
      refine ⟨hpair name type, ?_⟩
      intro hno
      simp [acceptsName, hname] at hno
    | false =>
      have hspan := count_spanUnlessEmpty type
      exact ⟨by simp [hspan], fun _ => by simp [hspan]⟩
  | braced =>
    obtain rfl := Except.ok.inj h
    cases hin : unwrap? type with
    | some inner =>
      have hinner := count_unwrap?_le hin
      refine ⟨(hpair name inner).trans (Nat.add_le_add_right hinner _), ?_⟩
      intro hno
      simp [acceptsName, hin] at hno
    | none =>
      have hspan := count_spanUnlessEmpty type
      exact ⟨by simp [hspan], fun _ => by simp [hspan]⟩
  | unspecified => exact absurd h (by simp [formatTypeAndName])

end TypeStyle

namespace Treatment

/-- Cutting off the head of a value makes no at signs. -/
theorem count_headAndRest_le (value : Text) :
    (headAndRest value).1.count '@' + (headAndRest value).2.1.count '@' +
      (headAndRest value).2.2.count '@' ≤ value.count '@' := by
  unfold headAndRest
  split
  · rename_i first rest tail h
    have hle := count_tokenizeHead_le h
    simp only [List.flatten_cons, List.flatten_nil, List.append_nil, List.count_append] at hle
    exact hle
  · exact Nat.zero_le _

/-- A head, text and the other lines of a value. -/
theorem count_entryText_le {head : Text} {n : Nat} (h : head.count '@' ≤ n) (rest tail : Text) :
    (joinEntry [head, rest] ++ tail).count '@' ≤ n + rest.count '@' + tail.count '@' := by
  have hjoin := count_joinEntry_le [head, rest]
  simp only [List.flatten_cons, List.flatten_nil, List.append_nil, List.count_append] at hjoin ⊢
  omega

/-- The entry of a name with a type holds no more at signs than the value. -/
theorem count_typedNameEntry_le {style : TypeStyle} {value out : Text}
    (h : typedNameEntry style value = .ok out) : out.count '@' ≤ value.count '@' := by
  unfold typedNameEntry at h
  split at h
  · rename_i type name rest tail htokens
    have hle := count_tokenizeHead_le htokens
    simp only [List.flatten_cons, List.flatten_nil, List.append_nil, List.count_append] at hle
    simp only at h
    split at h
    · obtain ⟨head, hhead, heq⟩ : ∃ head, style.formatTypeAndName type name = .ok head ∧
          pure (joinEntry [head, rest] ++ tail) = Except.ok out := exists_of_bind_eq_ok h
      obtain rfl := Except.ok.inj heq
      have hform := (TypeStyle.count_formatTypeAndName_le hhead).1
      have hentry := count_entryText_le hform rest tail
      omega
    · obtain ⟨isProse, hprose, heq⟩ := exists_of_bind_eq_ok h
      obtain ⟨head, hhead, heq⟩ := exists_of_bind_eq_ok heq
      obtain rfl := Except.ok.inj heq
      have hform := TypeStyle.count_formatTypeAndName_le hhead
      cases isProse with
      | false =>
        have hentry := count_entryText_le hform.1 rest tail
        simp only [Bool.false_eq_true, if_false]
        omega
      | true =>
        -- The second token goes to the text, so it is not written as a name.
        have hno : style.acceptsName type name = .ok false := by
          cases hname : style.acceptsName type name with
          | error e => rw [hname] at hprose; cases hprose
          | ok b =>
            rw [hname] at hprose
            cases b with
            | false => rfl
            | true => cases hprose
        have htext : (strip (name ++ ' ' :: rest)).count '@' ≤ name.count '@' + rest.count '@' := by
          refine (count_strip_le _).trans ?_
          rw [List.count_append, List.count_cons_of_ne (by decide)]
        have hentry := count_entryText_le (hform.2 hno) (strip (name ++ ' ' :: rest)) tail
        simp only [if_true]
        omega
  · obtain rfl := Except.ok.inj h
    exact Nat.zero_le _

/-- **No treatment adds an at sign** to the value it is given. -/
theorem count_entry_le {t : Treatment} {value : Text} {e : Entry} (h : t.entry value = .ok e) :
    (e.getD []).count '@' ≤ value.count '@' := by
  have hhead := count_headAndRest_le value
  cases t with
  | flag =>
    obtain rfl := Except.ok.inj h
    exact Nat.zero_le _
  | text =>
    obtain rfl := Except.ok.inj h
    exact Nat.le_refl _
  | code =>
    obtain rfl := Except.ok.inj h
    exact (count_spanUnlessEmpty value).le
  | leadingCode =>
    obtain rfl := Except.ok.inj h
    exact (count_entryText_le (count_spanUnlessEmpty _).le _ _).trans hhead
  | typedName style =>
    simp only [entry] at h
    cases hout : typedNameEntry style value with
    | error e => rw [hout] at h; exact absurd h (by simp)
    | ok out =>
      rw [hout] at h
      obtain rfl := Except.ok.inj h
      exact count_typedNameEntry_le hout
  | typed style =>
    simp only [entry] at h
    cases hout : style.formatType (headAndRest value).1 with
    | error e => rw [hout] at h; exact absurd h (by simp)
    | ok out =>
      rw [hout] at h
      obtain rfl := Except.ok.inj h
      exact (count_entryText_le (TypeStyle.count_formatType_le hout) _ _).trans hhead

end Treatment

/-! ### Groups -/

theorem TagGroup.count_inline (value : Text) : (inline value).count '@' = value.count '@' := by
  unfold inline
  split
  · rfl
  · split
    · rfl
    · exact List.count_cons_of_ne (by decide)

/-- What a group shows: its name and the texts of its entries. -/
theorem TagGroup.count_render (g : TagGroup) : g.render.count '@' =
    g.name.count '@' + (g.entries.filterMap id).flatten.count '@' := by
  have hlabel : ∀ stars : Text, '@' ∉ stars →
      ("\n * **".toList ++ g.name ++ stars).count '@' = g.name.count '@' := by
    intro stars hstars
    rw [List.count_append, List.count_append, List.count_eq_zero_of_not_mem hstars]
    exact Nat.zero_add _
  have hitems : ∀ values : List Text,
      (values.flatMap fun v => "\n   *".toList ++ inline v).count '@' = values.flatten.count '@' := by
    intro values
    induction values with
    | nil => rfl
    | cons v vs ih =>
      rw [List.flatMap_cons, List.flatten_cons, List.count_append, List.count_append,
        List.count_append, count_inline, ih]
      exact congrArg (· + vs.flatten.count '@') (Nat.zero_add _)
  simp only [render]
  split
  · rename_i hnone
    rw [hlabel _ (by decide), hnone]
    rfl
  · rename_i value hone
    rw [List.count_append, hlabel _ (by decide), count_inline, hone, List.flatten_singleton]
  · rw [List.count_append, hlabel _ (by decide), hitems]

/-- A new entry shows its text, below a label without at signs. -/
theorem TagGroups.count_render_add {name : Text} (hname : '@' ∉ name) (e : Entry) (gs : TagGroups) :
    (TagGroups.add name e gs).render.count '@' = gs.render.count '@' + (e.getD []).count '@' := by
  have hentry : ([e].filterMap id).flatten.count '@' = (e.getD []).count '@' := by
    cases e with
    | none => rfl
    | some text => simp
  simp only [render]
  induction gs with
  | nil =>
    rw [add, List.flatMap_singleton, TagGroup.count_render, hentry, List.count_eq_zero_of_not_mem hname]
    rfl
  | cons g gs ih =>
    rw [add]
    split
    · simp only [List.flatMap_cons, List.count_append, TagGroup.count_render,
        List.filterMap_append, List.flatten_append, hentry]
      omega
    · simp only [List.flatMap_cons, List.count_append, ih]
      omega

namespace Flavor

/-- Labels hold no at signs. -/
theorem notMem_of_mem_knownTags {kind : FlavorKind} {key group : String} {t : Treatment}
    (h : (key, group, t) ∈ knownTags kind) : '@' ∉ group.toList := by
  have hflags : ∀ p ∈ flagGroups, '@' ∉ p.2.toList := by decide
  have htexts : ∀ p ∈ textGroups, '@' ∉ p.2.toList := by decide
  have htyped : ∀ e ∈ typedGroups kind, '@' ∉ e.2.1.toList := by
    cases kind with
    | base => decide
    | static => decide
    | dynamic style => cases style <;> decide
  rcases List.mem_append.mp h with h | h
  · rcases List.mem_append.mp h with h | h
    · obtain ⟨p, hp, heq⟩ := List.mem_map.mp h
      obtain ⟨-, rfl, -⟩ : p.1 = key ∧ p.2 = group ∧ Treatment.flag = t := by simpa using heq
      exact hflags p hp
    · obtain ⟨p, hp, heq⟩ := List.mem_map.mp h
      obtain ⟨-, rfl, -⟩ : p.1 = key ∧ p.2 = group ∧ Treatment.text = t := by simpa using heq
      exact htexts p hp
  · rcases List.mem_cons.mp h with heq | h
    · obtain ⟨-, rfl, -⟩ : key = "this" ∧ group = "This" ∧ t = .code := by simpa using heq
      decide
    · exact htyped _ h

/-- No label holds an at sign. -/
theorem notMem_of_handling? {f : Flavor} {key group : Text} {t : Treatment}
    (h : f.handling? key = some (group, t)) : '@' ∉ group := by
  obtain ⟨⟨k, g, t'⟩, hfind, heq⟩ := Option.map_eq_some_iff.mp h
  obtain ⟨rfl, rfl⟩ : g.toList = group ∧ t' = t := by simpa using heq
  exact notMem_of_mem_knownTags (List.mem_of_find?_eq_some hfind)

/-- A tag adds no more at signs to the list than its value holds. -/
theorem count_addTag_le {f : Flavor} {tag : Comment.Tag} {gs gs' : TagGroups}
    (h : f.addTag gs tag = .ok gs') :
    gs'.render.count '@' ≤ gs.render.count '@' + tag.value.count '@' := by
  rcases addTag_cases h with ⟨-, rfl⟩ | ⟨group, t, e, hhandling, hentry, rfl⟩
  · exact Nat.le_add_right _ _
  · rw [TagGroups.count_render_add (notMem_of_handling? hhandling)]
    exact Nat.add_le_add_left (Treatment.count_entry_le hentry) _

/-- Tags add no more at signs to the list than their values hold. -/
theorem count_addTags_le {f : Flavor} {tags : List Comment.Tag} {gs gs' : TagGroups}
    (h : tags.foldlM f.addTag gs = .ok gs') :
    gs'.render.count '@' ≤ gs.render.count '@' + (tags.map Comment.Tag.value).flatten.count '@' := by
  induction tags generalizing gs with
  | nil =>
    obtain rfl := Except.ok.inj h
    exact Nat.le_refl _
  | cons tag tags ih =>
    rw [List.foldlM_cons] at h
    obtain ⟨mid, htag, htags⟩ := exists_of_bind_eq_ok h
    have hstep := count_addTag_le htag
    have hrest := ih htags
    rw [List.map_cons, List.flatten_cons, List.count_append]
    omega

end Flavor

namespace Document

/-- **The body of a section lacks the at sign of every tag line.** -/
theorem count_sectionBody_le {flavor : Flavor} {doc body : Text}
    (h : sectionBody flavor doc = .ok body) :
    body.count '@' + ((lines doc).filter Comment.isTagLine).length ≤ doc.count '@' := by
  have hparse := Comment.count_parse_le doc
  rw [sectionBody_eq] at h
  cases hgroups : flavor.addTags (Comment.parse doc).2 with
  | error e =>
    rw [hgroups] at h
    cases h
  | ok groups =>
    rw [hgroups] at h
    obtain rfl := Except.ok.inj h
    have htags : groups.render.count '@' ≤
        ((Comment.parse doc).2.map Comment.Tag.value).flatten.count '@' := by
      simpa [TagGroups.render] using Flavor.count_addTags_le hgroups
    have hdesc : (if (Comment.parse doc).1.isEmpty then []
        else "\n\n".toList ++ (Comment.parse doc).1).count '@' ≤ (Comment.parse doc).1.count '@' := by
      split
      · exact Nat.zero_le _
      · rw [List.count_append]
        exact (Nat.zero_add _).le
    have hlist : (if groups.isEmpty then [] else '\n' :: groups.render).count '@' ≤
        groups.render.count '@' := by
      split
      · exact Nat.zero_le _
      · rw [List.count_cons_of_ne (by decide)]
    rw [List.count_append]
    omega

end Document

end DocMark
