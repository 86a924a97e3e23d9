import DocMark.Proofs.Flavor.TagList

/-!
How tags are gathered into groups.

The groups grow one entry at a time, and yet they are given by the list of all entries and their groups:
the groups in the order of first use, and under each its entries in order (`gathered`). One more entry is
one more post at the end of that list (`gathered_concat`), so a run over tags gathers what the tags post
(`addTags_eq_gathered`). What depends on the posts only cannot see a tag that posts nothing, and two
neighbours change places unseen when their groups differ and are both in use (`gathered_swap`).
-/

namespace DocMark

open Text Comment

/-! ### First uses -/

theorem eraseDups_concat (names : List Text) (name : Text) :
    (names ++ [name]).eraseDups = names.eraseDups ++ if name ∈ names then [] else [name] := by
  rw [List.eraseDups_append, List.removeAll]
  by_cases hmem : name ∈ names
  · simp [hmem]
  · simp [hmem, List.eraseDups_cons]

theorem nodup_eraseDups (names : List Text) : names.eraseDups.Nodup := by
  induction names using List.reverseRecOn with
  | nil => exact List.nodup_nil
  | append_singleton names name ih =>
    rw [eraseDups_concat]
    split
    · rwa [List.append_nil]
    · rename_i hnew
      refine List.nodup_append.mpr ⟨ih, by simp, ?_⟩
      rintro n hn k hk rfl
      exact hnew (List.mem_singleton.mp hk ▸ List.mem_eraseDups.mp hn)

/-! ### Gathering -/

namespace TagGroups

/-- The groups of a list of posts, each of which is a group and an entry for it. -/
def gathered (posts : List (Text × Entry)) : TagGroups :=
  (posts.map Prod.fst).eraseDups.map fun name =>
    ⟨name, (posts.filter fun p => p.1 = name).map Prod.snd⟩

/-- The labels are those of the posts, each of them once. -/
theorem names_gathered (posts : List (Text × Entry)) :
    (gathered posts).names = (posts.map Prod.fst).eraseDups := by
  simp [gathered, names, Function.comp_def]

/-- An entry joins the group of its name, if there is one. -/
theorem add_map_of_mem {ns : List Text} (hns : ns.Nodup) {name : Text} (h : name ∈ ns)
    (entries : Text → List Entry) (e : Entry) :
    add name e (ns.map fun n => ⟨n, entries n⟩) =
      ns.map fun n => ⟨n, entries n ++ if n = name then [e] else []⟩ := by
  induction ns with
  | nil => cases h
  | cons n ns ih =>
    obtain ⟨hn, hns⟩ := List.nodup_cons.mp hns
    rw [List.map_cons, List.map_cons, add]
    by_cases heq : n = name
    · subst heq
      have hothers : ∀ k ∈ ns, (⟨k, entries k⟩ : TagGroup) = ⟨k, entries k ++ if k = n then [e] else []⟩ := by
        intro k hk
        have hne : k ≠ n := fun hkn => hn (hkn ▸ hk)
        rw [if_neg hne, List.append_nil]
      rw [if_pos rfl, if_pos rfl, List.map_congr_left hothers]
    · have hmem : name ∈ ns := (List.mem_cons.mp h).resolve_left (Ne.symm heq)
      rw [if_neg heq, if_neg heq, ih hns hmem, List.append_nil]

/-- A name that is not in use opens a group at the end. -/
theorem add_of_notMem {gs : TagGroups} {name : Text} (h : name ∉ gs.names) (e : Entry) :
    gs.add name e = gs ++ [⟨name, [e]⟩] := by
  induction gs with
  | nil => rfl
  | cons g gs ih =>
    obtain ⟨hg, hgs⟩ : name ≠ g.name ∧ name ∉ names gs := by simpa [names] using h
    rw [add, if_neg (Ne.symm hg), ih hgs]
    rfl

/-- **One more entry** is one more post. -/
theorem gathered_concat (posts : List (Text × Entry)) (name : Text) (e : Entry) :
    gathered (posts ++ [(name, e)]) = (gathered posts).add name e := by
  have hentries : ∀ n, ((posts ++ [(name, e)]).filter fun p => p.1 = n).map Prod.snd =
      (posts.filter fun p => p.1 = n).map Prod.snd ++ if n = name then [e] else [] := by
    intro n
    by_cases hn : name = n
    · simp [hn]
    · simp [hn, Ne.symm hn]
  rw [gathered, List.map_append, List.map_singleton, eraseDups_concat]
  simp only [hentries]
  by_cases hmem : name ∈ posts.map Prod.fst
  · rw [if_pos hmem, List.append_nil, gathered,
      add_map_of_mem (nodup_eraseDups _) (List.mem_eraseDups.mpr hmem)]
  · -- No post has the name yet, so the group holds nothing but the new entry.
    have hnone : (posts.filter fun p => p.1 = name) = [] := by
      rw [List.filter_eq_nil_iff]
      intro p hp heq
      exact hmem (List.mem_map.mpr ⟨p, hp, by simpa using heq⟩)
    have hothers : ∀ n ∈ (posts.map Prod.fst).eraseDups,
        (⟨n, (posts.filter fun p => p.1 = n).map Prod.snd ++ if n = name then [e] else []⟩ : TagGroup) =
          ⟨n, (posts.filter fun p => p.1 = n).map Prod.snd⟩ := by
      intro n hn
      have hne : n ≠ name := fun heq => hmem (heq ▸ List.mem_eraseDups.mp hn)
      rw [if_neg hne, List.append_nil]
    rw [if_neg hmem, add_of_notMem (by rwa [names_gathered, List.mem_eraseDups]), gathered,
      List.map_append, List.map_congr_left hothers, List.map_singleton, hnone, if_pos rfl]
    rfl

/-- **Neighbours change places unseen** when their groups differ and are both in use. -/
theorem gathered_swap {before after : List (Text × Entry)} {p q : Text × Entry} (hne : p.1 ≠ q.1)
    (hp : p.1 ∈ before.map Prod.fst) (hq : q.1 ∈ before.map Prod.fst) :
    gathered (before ++ p :: q :: after) = gathered (before ++ q :: p :: after) := by
  have hnames : ((before ++ p :: q :: after).map Prod.fst).eraseDups =
      ((before ++ q :: p :: after).map Prod.fst).eraseDups := by
    simp only [List.map_append, List.map_cons, List.eraseDups_append, List.removeAll]
    simp [hp, hq]
  have hposts : ∀ name, ((before ++ p :: q :: after).filter fun r => r.1 = name) =
      (before ++ q :: p :: after).filter fun r => r.1 = name := by
    intro name
    by_cases hname : p.1 = name
    · have hother : q.1 ≠ name := fun heq => hne (hname.trans heq.symm)
      simp [hname, hother]
    · simp [List.filter_cons, hname]
  rw [gathered, gathered, hnames]
  simp only [hposts]

end TagGroups

/-! ### The posts of a flavor -/

namespace Flavor

def knows (f : Flavor) (tag : Tag) : Bool := (f.handling? tag.key).isSome

def groupOf? (f : Flavor) (tag : Tag) : Option Text := (f.handling? tag.key).map Prod.fst

def entryOf? (f : Flavor) (tag : Tag) : Option Entry :=
  (f.handling? tag.key).bind fun handling => (handling.2.entry tag.value).toOption

def post? (f : Flavor) (tag : Tag) : Option (Text × Entry) :=
  (f.groupOf? tag).bind fun name => (f.entryOf? tag).map fun e => (name, e)

def tagList (f : Flavor) (tags : List Tag) : Except FlavorError Text :=
  (f.addTags tags).map TagGroups.render

/-- What a tag does: a known key leaves one entry in one group, and an unknown one leaves the groups as they
are. -/
theorem addTag_eq_add_or_self {f : Flavor} (hf : f ∈ named) (tag : Tag) :
    (∃ name e, f.groupOf? tag = some name ∧ f.entryOf? tag = some e ∧
        ∀ gs, f.addTag gs tag = .ok (gs.add name e)) ∨
      (f.groupOf? tag = none ∧ ∀ gs, f.addTag gs tag = .ok gs) := by
  cases hhandling : f.handling? tag.key with
  | none =>
    right
    refine ⟨by rw [groupOf?, hhandling]; rfl, fun gs => ?_⟩
    rw [addTag, hhandling]
  | some handling =>
    left
    obtain ⟨-, hspec⟩ := specified_of_handling? hf hhandling
    obtain ⟨e, he, -⟩ := Treatment.exists_entry hspec tag.value
    refine ⟨handling.1, e, by rw [groupOf?, hhandling]; rfl, ?_, fun gs => ?_⟩
    · rw [entryOf?, hhandling, Option.bind_some, he]
      rfl
    · rw [addTag, hhandling]
      simp only [he]
      rfl

theorem post?_eq_some {f : Flavor} {tag : Tag} {name : Text} {e : Entry} (hname : f.groupOf? tag = some name)
    (he : f.entryOf? tag = some e) : f.post? tag = some (name, e) := by
  rw [post?, hname, he]
  rfl

theorem post?_eq_none {f : Flavor} {tag : Tag} (h : f.groupOf? tag = none) : f.post? tag = none := by
  rw [post?, h]
  rfl

/-- A tag that a named flavor knows leaves an entry. -/
theorem exists_post {f : Flavor} (hf : f ∈ named) {tag : Tag} {name : Text}
    (h : f.groupOf? tag = some name) : ∃ e, f.post? tag = some (name, e) := by
  rcases addTag_eq_add_or_self hf tag with ⟨name', e, hname, he, -⟩ | ⟨hnone, -⟩
  · obtain rfl : name = name' := Option.some.inj (h.symm.trans hname)
    exact ⟨e, post?_eq_some h he⟩
  · exact absurd (h.symm.trans hnone) (by simp)

/-- Adding tags to groups adds their posts. -/
theorem foldlM_addTag_gathered {f : Flavor} (hf : f ∈ named) (tags : List Tag)
    (posts : List (Text × Entry)) :
    tags.foldlM f.addTag (TagGroups.gathered posts) =
      .ok (TagGroups.gathered (posts ++ tags.filterMap f.post?)) := by
  induction tags generalizing posts with
  | nil => simp [pure, Except.pure]
  | cons tag tags ih =>
    rw [List.foldlM_cons]
    rcases addTag_eq_add_or_self hf tag with ⟨name, e, hname, he, hadd⟩ | ⟨hname, hadd⟩
    · rw [hadd, ← TagGroups.gathered_concat, List.filterMap_cons_some (post?_eq_some hname he),
        List.append_cons posts (name, e) (tags.filterMap f.post?)]
      exact ih (posts ++ [(name, e)])
    · rw [hadd, List.filterMap_cons_none (post?_eq_none hname)]
      exact ih posts

/-- **A run gathers what its tags post.** -/
theorem addTags_eq_gathered {f : Flavor} (hf : f ∈ named) (tags : List Tag) :
    f.addTags tags = .ok (TagGroups.gathered (tags.filterMap f.post?)) :=
  foldlM_addTag_gathered hf tags []

theorem map_fst_posts {f : Flavor} (hf : f ∈ named) (tags : List Tag) :
    (tags.filterMap f.post?).map Prod.fst = tags.filterMap f.groupOf? := by
  rw [List.map_filterMap]
  refine List.filterMap_congr fun tag _ => ?_
  rcases addTag_eq_add_or_self hf tag with ⟨name, e, hname, he, -⟩ | ⟨hname, -⟩
  · rw [post?_eq_some hname he, hname]
    rfl
  · rw [post?_eq_none hname, hname]
    rfl

/-- The posts of a group are those of its tags, one for each. -/
theorem posts_of_group {f : Flavor} (hf : f ∈ named) (tags : List Tag) (name : Text) :
    (((tags.filterMap f.post?).filter fun p => p.1 = name).map Prod.snd).map some =
      (tags.filter fun tag => f.groupOf? tag = some name).map f.entryOf? := by
  induction tags with
  | nil => rfl
  | cons tag tags ih =>
    rcases addTag_eq_add_or_self hf tag with ⟨group, e, hgroup, he, -⟩ | ⟨hgroup, -⟩
    · rw [List.filterMap_cons_some (post?_eq_some hgroup he), List.filter_cons, List.filter_cons, hgroup]
      by_cases heq : group = name
      · simp [heq, he, ← ih]
      · simp [heq, ← ih]
    · rw [List.filterMap_cons_none (post?_eq_none hgroup), List.filter_cons, hgroup, ih]
      rfl

/-- Unknown tags post nothing. -/
theorem filterMap_post_filter_knows (f : Flavor) (tags : List Tag) :
    (tags.filter f.knows).filterMap f.post? = tags.filterMap f.post? := by
  rw [List.filterMap_filter]
  refine List.filterMap_congr fun tag _ => ?_
  split
  · rfl
  · rename_i hunknown
    refine (post?_eq_none ?_).symm
    rw [groupOf?, Option.not_isSome_iff_eq_none.mp hunknown]
    rfl

/-- Neighbours of different groups that are both in use may change places. -/
theorem addTags_swap {f : Flavor} (hf : f ∈ named) {before after : List Tag} {x y : Tag} {g h : Text}
    (hx : f.groupOf? x = some g) (hy : f.groupOf? y = some h) (hne : g ≠ h)
    (hg : g ∈ before.filterMap f.groupOf?) (hh : h ∈ before.filterMap f.groupOf?) :
    f.addTags (before ++ x :: y :: after) = f.addTags (before ++ y :: x :: after) := by
  obtain ⟨d, hd⟩ := exists_post hf hx
  obtain ⟨e, he⟩ := exists_post hf hy
  rw [← map_fst_posts hf] at hg hh
  simp only [addTags_eq_gathered hf, List.filterMap_append, List.filterMap_cons_some hd,
    List.filterMap_cons_some he]
  rw [TagGroups.gathered_swap hne hg hh]

/-- **Grouping is stable and complete.** In every flavor, a list of tags has groups. They are the groups of
the tags with a known key, in the order of first use, and the entries of each are those of exactly the tags
that go to it, one for each and in order. So the tag list is the same for two lists with the same known tags,
and it stays when two neighbours change places whose groups differ and are both in use before them. -/
theorem addTags_stable {f : Flavor} (hf : f ∈ named) (tags : List Tag) :
    (∃ gs, f.addTags tags = .ok gs ∧ gs.names = (tags.filterMap f.groupOf?).eraseDups ∧
      ∀ g ∈ gs, g.entries.map some =
        (tags.filter fun tag => f.groupOf? tag = some g.name).map f.entryOf?) ∧
    (∀ others : List Tag, others.filter f.knows = tags.filter f.knows →
      f.tagList others = f.tagList tags) ∧
    ∀ (before after : List Tag) (x y : Tag) (g h : Text), tags = before ++ x :: y :: after →
      f.groupOf? x = some g → f.groupOf? y = some h → g ≠ h →
      g ∈ before.filterMap f.groupOf? → h ∈ before.filterMap f.groupOf? →
      f.tagList (before ++ y :: x :: after) = f.tagList tags := by
  refine ⟨⟨_, addTags_eq_gathered hf tags, ?_, ?_⟩, ?_, ?_⟩
  · rw [TagGroups.names_gathered, map_fst_posts hf]
  · intro g hg
    obtain ⟨name, -, rfl⟩ := List.mem_map.mp hg
    exact posts_of_group hf tags name
  · intro others hsame
    rw [tagList, tagList, addTags_eq_gathered hf, addTags_eq_gathered hf,
      ← filterMap_post_filter_knows f others, hsame, filterMap_post_filter_knows]
  · rintro before after x y g h rfl hx hy hne hg hh
    rw [tagList, tagList, addTags_swap hf hx hy hne hg hh]

/-- Parameters and exceptions in turn, with a tag in between that no flavor knows. -/
def mixedTags : List Tag :=
  [⟨"param".toList, "\x7bint\x7d x".toList⟩, ⟨"throws".toList, "\x7bError\x7d".toList⟩,
    ⟨"custom".toList, "a note".toList⟩, ⟨"exception".toList, "\x7bRangeError\x7d".toList⟩,
    ⟨"param".toList, "\x7bint\x7d y".toList⟩]

/-- The tag list without the unknown tag, and with the last two tags the other way round. -/
theorem addTags_stable_mixed :
    jsdoc ∈ named ∧
      (∃ gs, jsdoc.addTags mixedTags = .ok gs ∧ gs.names = ["Parameters".toList, "Exceptions".toList]) ∧
      jsdoc.tagList (mixedTags.eraseIdx 2) = jsdoc.tagList mixedTags ∧
      jsdoc.tagList (mixedTags.take 3 ++ [⟨"param".toList, "\x7bint\x7d y".toList⟩,
        ⟨"exception".toList, "\x7bRangeError\x7d".toList⟩]) = jsdoc.tagList mixedTags := by
  have hjsdoc : jsdoc ∈ named := by simp [named]
  obtain ⟨⟨gs, hgs, hnames, -⟩, hunknown, hswap⟩ := addTags_stable hjsdoc mixedTags
  refine ⟨hjsdoc, ⟨gs, hgs, hnames⟩, hunknown _ rfl, ?_⟩
  exact hswap (mixedTags.take 3) [] _ _ "Exceptions".toList "Parameters".toList rfl rfl rfl (by simp)
    (by decide) (by decide)

end Flavor

end DocMark
