import DocMark.Document.Render
import DocMark.Proofs.Flavor.TagList

/-!
Every comment has a body in every flavor that says how types are written.

A tag has no entry only where it holds a type and the flavor does not say how types are written. All other
flavors have an entry for every tag (`Flavor.exists_addTags`), and so a body for every comment
(`Document.exists_sectionBody`). The flavors that can be asked for by name are among them.
-/

namespace DocMark

namespace Flavor

/-- The flavor says how types are written, if it writes any. -/
def IsSpecified (f : Flavor) : Prop := f.kind ≠ .dynamic .unspecified

/-- Every flavor with a name says how types are written. -/
theorem isSpecified_of_mem_named {f : Flavor} (hf : f ∈ named) : f.IsSpecified := by
  rcases List.mem_cons.mp hf with rfl | hf
  · intro hkind
    cases hkind
  · rcases List.mem_cons.mp hf with rfl | hf
    · intro hkind
      cases hkind
    · obtain rfl := List.mem_singleton.mp hf
      intro hkind
      cases hkind

/-- The tags that all flavors share hold no types. -/
theorem treatment_of_mem_knownTags {kind : FlavorKind} {e : String × String × Treatment}
    (h : e ∈ knownTags kind) : e.2.2 ∈ [.flag, .text, .code] ∨ e ∈ typedGroups kind := by
  rcases List.mem_append.mp h with h | h
  · rcases List.mem_append.mp h with h | h
    · obtain ⟨p, -, rfl⟩ := List.mem_map.mp h
      exact Or.inl (by simp)
    · obtain ⟨p, -, rfl⟩ := List.mem_map.mp h
      exact Or.inl (by simp)
  · rcases List.mem_cons.mp h with rfl | h
    · exact Or.inl (by simp)
    · exact Or.inr h

/-- A flavor that says how types are written treats every tag so. -/
theorem IsSpecified.treatment {f : Flavor} (hf : f.IsSpecified) {key group : Text} {t : Treatment}
    (h : f.handling? key = some (group, t)) : t.IsSpecified := by
  obtain ⟨e, hfind, heq⟩ := Option.map_eq_some_iff.mp h
  obtain ⟨-, rfl⟩ := Prod.mk.inj heq
  rcases treatment_of_mem_knownTags (List.mem_of_find?_eq_some hfind) with hshared | htyped
  · simp only [List.mem_cons, List.not_mem_nil, or_false] at hshared
    rcases hshared with ht | ht | ht
    all_goals simp [Treatment.IsSpecified, ht]
  · cases hkind : f.kind with
    | base => simp [typedGroups, hkind] at htyped
    | static =>
      simp only [typedGroups, hkind, List.mem_cons, List.not_mem_nil, or_false] at htyped
      rcases htyped with rfl | rfl | rfl | rfl | rfl
      all_goals simp [Treatment.IsSpecified]
    | dynamic style =>
      have hstyle : style ≠ .unspecified := fun heq => hf (heq ▸ hkind)
      simp only [typedGroups, hkind, List.mem_cons, List.not_mem_nil, or_false] at htyped
      rcases htyped with rfl | rfl | rfl | rfl | rfl | rfl
      all_goals simp [Treatment.IsSpecified, hstyle]

/-- What one tag does: nothing if the flavor does not know it, and else it adds its entry. -/
theorem addTag_cases {f : Flavor} {gs gs' : TagGroups} {tag : Comment.Tag} (h : f.addTag gs tag = .ok gs') :
    (f.handling? tag.key = none ∧ gs' = gs) ∨
      ∃ group t e, f.handling? tag.key = some (group, t) ∧ t.entry tag.value = .ok e ∧
        gs' = gs.add group e := by
  unfold addTag at h
  split at h
  · rename_i group t hhandling
    cases hentry : t.entry tag.value with
    | error err =>
      rw [hentry] at h
      cases h
    | ok e =>
      rw [hentry] at h
      cases h
      exact Or.inr ⟨group, t, e, hhandling, hentry, rfl⟩
  · rename_i hhandling
    cases h
    exact Or.inl ⟨hhandling, rfl⟩

/-- A flavor that says how types are written has groups for every list of tags. -/
theorem exists_addTags {f : Flavor} (hf : f.IsSpecified) (tags : List Comment.Tag) :
    ∃ gs, f.addTags tags = .ok gs := by
  have hfold : ∀ gs : TagGroups, ∃ gs', tags.foldlM f.addTag gs = .ok gs' := by
    induction tags with
    | nil => exact fun gs => ⟨gs, rfl⟩
    | cons tag tags ih =>
      intro gs
      obtain ⟨gs₁, hadd⟩ : ∃ gs₁, f.addTag gs tag = .ok gs₁ := by
        cases hhandling : f.handling? tag.key with
        | none => exact ⟨gs, by rw [addTag, hhandling]⟩
        | some handling =>
          obtain ⟨e, he, -⟩ := Treatment.exists_entry (hf.treatment hhandling) tag.value
          exact ⟨gs.add handling.1 e, by rw [addTag, hhandling]; simp only [he]; rfl⟩
      obtain ⟨gs', hgs'⟩ := ih gs₁
      exact ⟨gs', by rw [List.foldlM_cons, hadd]; exact hgs'⟩
  exact hfold []

end Flavor

namespace Document

/-- The body of a section is its description and its groups. -/
theorem sectionBody_eq (flavor : Flavor) (doc : Text) :
    sectionBody flavor doc = (flavor.addTags (Comment.parse doc).2).map fun groups =>
      (if (Comment.parse doc).1.isEmpty then [] else "\n\n".toList ++ (Comment.parse doc).1) ++
        (if groups.isEmpty then [] else '\n' :: groups.render) := by
  unfold sectionBody
  obtain ⟨description, tags⟩ := Comment.parse doc
  change flavor.addTags tags >>= _ = _
  cases flavor.addTags tags with
  | error e => rfl
  | ok groups => rfl

/-- **Every comment has a body**, if the flavor says how types are written. -/
theorem exists_sectionBody {f : Flavor} (hf : f.IsSpecified) (doc : Text) :
    ∃ body, sectionBody f doc = .ok body := by
  obtain ⟨groups, hgroups⟩ := Flavor.exists_addTags hf (Comment.parse doc).2
  exact ⟨_, by rw [sectionBody_eq, hgroups]; rfl⟩

end Document

end DocMark
