import DocMark.Proofs.Site.Building

/-!
Whether a site on disk is what was reported.

Pages are written one after another into one directory, and the index last. In a new directory, all of them
stand there in the end exactly when no page is the index, neither a page nor the index takes the place of a
directory of another page, the system lets the sources be read and the pages be written, and the names of the
sources can be written into the index (`generate_onDisk_iff`).
-/

namespace DocMark.Site

open FileTree

/-- What was reported is what the tree holds: one page for every source, each with the rendering of that
source, and the index of the pages, all in different files. -/
structure Plan.OnDisk (p : Plan) (before : FileTree) (site : Finished) (after : FileTree) : Prop where
  sources : site.pages.map (·.source) = (p.sources before).map (⟨[], ·⟩)
  pages : ∀ page ∈ site.pages, ∃ content rendered,
    targetFor? p.extension page.source = some page.target ∧
    before.read (p.sourceRoot ++ page.source) = .ok content ∧
    Document.render ⟨p.flavor, p.headingLevel⟩ (readSource page.source.name content).1 = .ok rendered ∧
    page.sections = rendered.renderedSections ∧
    after.read (p.outputDir ++ page.target) = .ok (Utf8.encode rendered.markdown)
  index : ∃ text, (index site.pages).toText? = some text ∧
    after.read p.indexPath = .ok (Utf8.encode text)
  distinct : (p.written site).Nodup

/-- The pages of the sources have room beside each other, and nothing is refused. -/
structure Plan.Fits (p : Plan) (tree : FileTree) : Prop where
  /-- No file is in the way to the output directory. -/
  way_clear : ∀ q, q <+: p.outputDir.parts → ∀ b, tree.nodeAt q ≠ some (.file b)
  /-- The sources can be read, and their pages can be written. -/
  permits : ∀ s ∈ p.sources tree, p.Permits tree.access s
  index_writable : CanWrite tree.access p.indexPath
  /-- No name has a stray byte, which could not be written into the index. -/
  names_encodable : ∀ s ∈ p.sources tree, ∀ name ∈ s, RawText.Encodable name
  /-- No page goes where the index goes. -/
  index_apart : [RawText.ofText ("_index.".toList ++ p.extension)] ∉ p.sources tree
  /-- No page stands where another page needs a directory. -/
  page_not_dir : ∀ s ∈ p.sources tree, ∀ s' ∈ p.sources tree, ¬ p.pageParts s <+: s'.dropLast
  /-- No page needs a directory where the index goes. -/
  index_not_dir : ∀ s ∈ p.sources tree, ¬ [RawText.ofText indexFile] <+: s.dropLast

/-! ### Paths of pages -/

section Paths

variable {p : Plan} {s : List RawText}

theorem pageParts_ne_nil : p.pageParts s ≠ [] := by simp [Plan.pageParts]

/-- A path that leads to a page is the page, or leads to one of its directories. -/
theorem prefix_pageParts_iff {q : List RawText} :
    q <+: p.pageParts s ↔ q = p.pageParts s ∨ q <+: s.dropLast := List.prefix_concat_iff

/-- A page is the index exactly if its source has the name of the index. -/
theorem pageParts_eq_index_iff (hs : p.Listed s) :
    p.pageParts s = [RawText.ofText indexFile] ↔ s = [RawText.ofText ("_index.".toList ++ p.extension)] := by
  have hsplit : RawText.ofText ("_index.".toList ++ p.extension) =
      RawText.ofText "_index".toList ++ suffix p.extension := rfl
  constructor
  · intro heq
    obtain ⟨dirs, base, rfl, -⟩ := hs.exists_base
    have hconcat : dirs ++ [base ++ RawText.ofText ".md".toList] =
        [] ++ [RawText.ofText "_index".toList ++ RawText.ofText ".md".toList] :=
      (pageParts_concat dirs base).symm.trans heq
    obtain ⟨rfl, hname⟩ := List.append_inj' hconcat rfl
    obtain rfl : base = RawText.ofText "_index".toList :=
      List.append_cancel_right (List.singleton_inj.mp hname)
    rfl
  · rintro rfl
    rw [hsplit]
    exact pageParts_concat [] (RawText.ofText "_index".toList)

end Paths

/-! ### Room in a new directory -/

/-- Where nothing stands yet, every path below is free. -/
theorem free_of_new {tree : FileTree} {out rest : List RawText} (hnew : tree.nodeAt out = none)
    (hway : ∀ q, q <+: out → ∀ b, tree.nodeAt q ≠ some (.file b)) : Free tree.nodeAt (out ++ rest) := by
  have hbelow : ∀ q, out <+: q → tree.nodeAt q = none := by
    rintro q ⟨r, rfl⟩
    cases r with
    | nil => rwa [List.append_nil]
    | cons r₀ r =>
      cases hn : tree.nodeAt (out ++ r₀ :: r) with
      | none => rfl
      | some n =>
        rw [nodeAt_eq_dir_of_below hn] at hnew
        cases hnew
  refine ⟨fun q hq _ b hfile => ?_, fun hdir => ?_⟩
  · rcases List.prefix_or_prefix_of_prefix hq (List.prefix_append out rest) with habove | hq
    · exact hway q habove b hfile
    · rw [hbelow q hq] at hfile
      cases hfile
  · rw [hbelow _ (List.prefix_append out rest)] at hdir
    cases hdir

/-- A file does not lie on the way into a new directory. -/
theorem not_isPrefix_of_new {tree : FileTree} {out path rest : List RawText} {b : Bytes}
    (hnew : tree.nodeAt out = none) (hway : ∀ q, q <+: out → ∀ b, tree.nodeAt q ≠ some (.file b))
    (hfile : tree.nodeAt path = some (.file b)) : ¬ path <+: out ++ rest := by
  intro hpath
  rcases List.prefix_or_prefix_of_prefix hpath (List.prefix_append out rest) with habove | hbelow
  · exact hway path habove b hfile
  · by_cases heq : out = path
    · rw [← heq, hnew] at hfile
      cases hfile
    · rw [nodeAt_eq_dir_of_isPrefix hfile hbelow heq] at hnew
      cases hnew

/-- Pages can be made when their sources can be read, their paths are free, and no path leads through
another or through a source. -/
theorem exists_builds {p : Plan} (hf : p.flavor ∈ Flavor.named) {v : List RawText → Option Node}
    {ss : List (List RawText)}
    (hread : ∀ s ∈ ss, ∃ content, v (p.sourceRoot.parts ++ s) = some (.file content))
    (hfree : ∀ s ∈ ss, Free v (p.outputDir.parts ++ p.pageParts s))
    (hapart : ss.Pairwise fun s s' =>
      ¬ p.pageParts s <+: p.pageParts s' ∧ ¬ p.pageParts s' <+: p.pageParts s)
    (hkept : ∀ s ∈ ss, ∀ s' ∈ ss, ¬ p.sourceRoot.parts ++ s <+: p.outputDir.parts ++ p.pageParts s') :
    ∃ mades ws, p.Builds v ss mades ws := by
  induction ss generalizing v with
  | nil => exact ⟨[], [], .nil v⟩
  | cons s ss ih =>
    obtain ⟨content, hnode⟩ := hread s List.mem_cons_self
    obtain ⟨made, bytes, hmakes⟩ := exists_makes hf s content
    obtain ⟨hfirst, hothers⟩ := List.pairwise_cons.mp hapart
    obtain ⟨mades, ws, hbuilds⟩ := ih (v := withFile v (p.outputDir.parts ++ p.pageParts s) bytes)
      (fun s' hs' => by
        rw [withFile_of_not_isPrefix (hkept s' (List.mem_cons_of_mem s hs') s List.mem_cons_self)]
        exact hread s' (List.mem_cons_of_mem s hs'))
      (fun s' hs' => by
        refine (hfree s' (List.mem_cons_of_mem s hs')).withFile ?_ ?_
        · rw [List.prefix_append_right_inj]
          exact (hfirst s' hs').1
        · rw [List.prefix_append_right_inj]
          exact (hfirst s' hs').2)
      hothers
      fun s₁ h₁ s₂ h₂ => hkept s₁ (List.mem_cons_of_mem s h₁) s₂ (List.mem_cons_of_mem s h₂)
    exact ⟨_, _, .cons hnode hmakes (hfree s List.mem_cons_self) hbuilds⟩

section Builds

variable {p : Plan} {v : List RawText → Option Node} {ss : List (List RawText)}
  {mades : List (Page × List Text)} {ws : List (List RawText × Bytes)}

/-- Pages come of the sources as they were at first, if no page is written over a source. -/
theorem Plan.Builds.makes_of_kept (h : p.Builds v ss mades ws)
    (hkept : ∀ s ∈ ss, ∀ s' ∈ ss, ¬ p.sourceRoot.parts ++ s <+: p.outputDir.parts ++ p.pageParts s') :
    ∀ made ∈ mades, ∃ s ∈ ss, ∃ content bytes,
      v (p.sourceRoot.parts ++ s) = some (.file content) ∧ p.Makes s content made bytes ∧
      (p.outputDir.parts ++ p.pageParts s, bytes) ∈ ws := by
  induction h with
  | nil v => simp
  | @cons v s ss content bytes made mades ws hnode hmakes _ _ ih =>
    intro m hm
    rcases List.mem_cons.mp hm with rfl | hlater
    · exact ⟨s, List.mem_cons_self, content, bytes, hnode, hmakes, List.mem_cons_self⟩
    · obtain ⟨s', hs', content', bytes', hnode', hmakes', hw⟩ := ih (fun s₁ h₁ s₂ h₂ =>
        hkept s₁ (List.mem_cons_of_mem s h₁) s₂ (List.mem_cons_of_mem s h₂)) m hlater
      have hs' := List.mem_cons_of_mem s hs'
      rw [withFile_of_not_isPrefix (hkept s' hs' s List.mem_cons_self)] at hnode'
      exact ⟨s', hs', content', bytes', hnode', hmakes', List.mem_cons_of_mem _ hw⟩

end Builds

/-! ### Sites on disk -/

section Sites

variable {p : Plan} {tree : FileTree}

/-- Where a file of a site stands, no page needs a directory. -/
theorem Plan.Produces.not_dir {mades : List (Page × List Text)} {ws : List (List RawText × Bytes)}
    {after : FileTree} (hm : p.Produces tree mades ws after) {q : List RawText}
    (hq : ∃ b, after.nodeAt (p.outputDir.parts ++ q) = some (.file b)) :
    ∀ s ∈ p.sources tree, ¬ q <+: s.dropLast := by
  intro s hs hdir
  obtain ⟨b, hfile⟩ := hq
  obtain ⟨b', hpage⟩ := hm.exists_page hs
  have hpre : p.outputDir.parts ++ q <+: p.outputDir.parts ++ p.pageParts s :=
    (List.prefix_append_right_inj _).mpr (prefix_pageParts_iff.mpr (Or.inr hdir))
  have hne : p.outputDir.parts ++ q ≠ p.outputDir.parts ++ p.pageParts s := by
    intro heq
    obtain rfl := List.append_cancel_left heq
    exact not_append_isPrefix _ (List.cons_ne_nil _ []) hdir
  rw [nodeAt_eq_dir_of_isPrefix hpage hpre hne] at hfile
  cases hfile

/-- A site that was made fits, if its files are all different. -/
theorem fits_of_produces (h : p.Sound tree) (hd : tree.DistinctNames) {mades : List (Page × List Text)}
    {ws : List (List RawText × Bytes)} {after : FileTree} (hm : p.Produces tree mades ws after)
    (hdistinct : (p.written (p.site mades)).Nodup) : p.Fits tree := by
  have hwritable := hm.generates.writable
  obtain ⟨s₀, hs₀⟩ := List.exists_mem_of_ne_nil _ hm.generates.some_source
  refine
    { way_clear := fun q hq b hfile => ?_
      permits := hm.generates.permits
      index_writable := hm.generates.index_writable
      names_encodable := hm.generates.builds.index_encodable_iff.mp hm.generates.index_encodable
      index_apart := fun hmem => ?_
      page_not_dir := fun s hs => hm.not_dir (hm.exists_page hs)
      index_not_dir := hm.not_dir hm.exists_index }
  · -- A file on the way would have stayed one, but directories lead to the pages.
    obtain ⟨b', hstays⟩ := hwritable.file_stays hfile
    obtain ⟨b₀, hpage⟩ := hm.exists_page hs₀
    have hne : q ≠ p.outputDir.parts ++ p.pageParts s₀ := by
      rintro rfl
      exact not_append_isPrefix _ pageParts_ne_nil hq
    rw [← hm.wrote.nodes, nodeAt_eq_dir_of_isPrefix hpage (hq.trans (List.prefix_append _ _)) hne] at hstays
    cases hstays
  · have hlisted := listed_of_mem_sources h hd _ hmem
    rw [hm.generates.builds.written_eq, List.map_cons, List.nodup_cons,
      ← (pageParts_eq_index_iff hlisted).mpr rfl] at hdistinct
    exact hdistinct.1 (List.mem_map_of_mem (List.mem_map_of_mem hmem))

namespace Plan.Fits

/-- Nothing is written over a source, since the output directory is new. -/
theorem kept (hfits : p.Fits tree) (h : p.Sound tree) (hd : tree.DistinctNames)
    (hnew : tree.nodeAt p.outputDir.parts = none) :
    ∀ s ∈ p.sources tree, ∀ s' ∈ p.sources tree,
      ¬ p.sourceRoot.parts ++ s <+: p.outputDir.parts ++ p.pageParts s' := by
  intro s hs s' _
  obtain ⟨-, content, hcontent⟩ := (mem_sources_iff h hd).mp hs
  exact not_isPrefix_of_new hnew hfits.way_clear hcontent

theorem page_ne_index (hfits : p.Fits tree) (h : p.Sound tree) (hd : tree.DistinctNames) {s : List RawText}
    (hs : s ∈ p.sources tree) : p.pageParts s ≠ [RawText.ofText indexFile] := by
  intro heq
  rw [(pageParts_eq_index_iff (listed_of_mem_sources h hd s hs)).mp heq] at hs
  exact hfits.index_apart hs

/-- No page stands where another needs a directory, and no two are the same. -/
theorem pages_apart (hfits : p.Fits tree) (h : p.Sound tree) (hd : tree.DistinctNames) {s s' : List RawText}
    (hs : s ∈ p.sources tree) (hs' : s' ∈ p.sources tree) (hne : s ≠ s') :
    ¬ p.pageParts s <+: p.pageParts s' := by
  intro hpre
  rcases prefix_pageParts_iff.mp hpre with heq | hdir
  · have hlisted := listed_of_mem_sources h hd
    exact hne ((hlisted s hs).eq_of_pageParts_eq (hlisted s' hs') heq)
  · exact hfits.page_not_dir s hs s' hs' hdir

/-- The index and the pages do not stand in each other's way. -/
theorem index_apart_page (hfits : p.Fits tree) (h : p.Sound tree) (hd : tree.DistinctNames)
    {s : List RawText} (hs : s ∈ p.sources tree) :
    ¬ p.pageParts s <+: [RawText.ofText indexFile] ∧ ¬ [RawText.ofText indexFile] <+: p.pageParts s := by
  have hne := hfits.page_ne_index h hd hs
  constructor
  · intro hpre
    rcases List.prefix_cons_iff.mp hpre with hnil | ⟨rest, heq, hrest⟩
    · exact pageParts_ne_nil hnil
    · rw [List.prefix_nil.mp hrest] at heq
      exact hne heq
  · intro hpre
    rcases prefix_pageParts_iff.mp hpre with heq | hdir
    · exact hne heq.symm
    · exact hfits.index_not_dir s hs hdir

/-- A site that fits can be made. -/
theorem exists_generates (hfits : p.Fits tree) (h : p.Sound tree) (hd : tree.DistinctNames)
    (hnew : tree.nodeAt p.outputDir.parts = none) (hsome : p.sources tree ≠ []) :
    ∃ mades ws, p.Generates tree.access tree.nodeAt (p.sources tree) mades ws := by
  have hfree : ∀ rest, Free tree.nodeAt (p.outputDir.parts ++ rest) :=
    fun rest => free_of_new hnew hfits.way_clear
  obtain ⟨mades, ws, hbuilds⟩ := exists_builds h.flavor
    (fun s hs => ((mem_sources_iff h hd).mp hs).2) (fun s _ => hfree _)
    ((pairwise_sources h hd).imp_of_mem fun hs hs' hlt =>
      ⟨hfits.pages_apart h hd hs hs' hlt.ne, hfits.pages_apart h hd hs' hs hlt.ne'⟩)
    (hfits.kept h hd hnew)
  have hindex : Free (writeAll tree.nodeAt ws) p.indexPath.parts := by
    refine (hfree [RawText.ofText indexFile]).writeAll fun w hw => ?_
    obtain ⟨s, hs, heq⟩ := hbuilds.exists_source hw
    rw [heq, List.prefix_append_right_inj, List.prefix_append_right_inj]
    exact hfits.index_apart_page h hd hs
  exact ⟨mades, ws, hsome, hbuilds, hfits.permits, hindex, hfits.index_writable,
    hbuilds.index_encodable_iff.mpr hfits.names_encodable⟩

/-- All files of a site that fits are different. -/
theorem nodup_paths (hfits : p.Fits tree) (h : p.Sound tree) (hd : tree.DistinctNames) :
    ([RawText.ofText indexFile] :: (p.sources tree).map p.pageParts).Nodup := by
  refine List.nodup_cons.mpr ⟨fun hmem => ?_, ?_⟩
  · obtain ⟨s, hs, heq⟩ := List.mem_map.mp hmem
    exact hfits.page_ne_index h hd hs heq
  · refine List.pairwise_map.mpr ((pairwise_sources h hd).imp_of_mem fun hs hs' hlt heq => ?_)
    have hlisted := listed_of_mem_sources h hd
    exact hlt.ne ((hlisted _ hs).eq_of_pageParts_eq (hlisted _ hs') heq)

end Plan.Fits

section Written

variable {mades : List (Page × List Text)} {ws : List (List RawText × Bytes)} {after : FileTree}
  {rest : List RawText} {bytes : Bytes}

/-- Where no path is written twice, each file holds what was written. -/
theorem Plan.Produces.nodeAt_written (hm : p.Produces tree mades ws after)
    (hnodup : ([RawText.ofText indexFile] :: (p.sources tree).map p.pageParts).Nodup)
    (hw : (p.outputDir.parts ++ rest, bytes) ∈ p.withIndex mades ws) :
    after.nodeAt (p.outputDir.parts ++ rest) = some (.file bytes) := by
  have hpaths : ((p.withIndex mades ws).map Prod.fst).Nodup := by
    rw [hm.generates.builds.paths_withIndex]
    refine List.Nodup.map (fun a b => List.append_cancel_left) ?_
    exact (List.perm_append_singleton _ _).nodup_iff.mpr hnodup
  rw [hm.wrote.nodes]
  exact hm.generates.writable.file_of_nodup hpaths hw

theorem Plan.Produces.look_written (hm : p.Produces tree mades ws after) (h : p.Sound tree)
    (hnodup : ([RawText.ofText indexFile] :: (p.sources tree).map p.pageParts).Nodup)
    (hw : (p.outputDir.parts ++ rest, bytes) ∈ p.withIndex mades ws)
    (hup : Path.up ∉ p.outputDir.parts ++ rest) :
    ∃ r, after.look ⟨p.outputDir.root, p.outputDir.parts ++ rest⟩ = .ok (.file bytes r) := by
  obtain ⟨r, hfind⟩ := nodeAt_eq_file_iff.mp (hm.nodeAt_written hnodup hw)
  refine ⟨r, (look_eq_ok_iff (p := ⟨p.outputDir.root, p.outputDir.parts ++ rest⟩) h.output_abs hup).mpr
    ⟨hfind, ?_⟩⟩
  rw [hm.wrote.access]
  exact (hm.generates.canWrite hw).toFollows

/-- In a new directory, what was written can be read. -/
theorem Plan.Produces.read_written (hm : p.Produces tree mades ws after) (h : p.Sound tree)
    (hnew : tree.nodeAt p.outputDir.parts = none)
    (hnodup : ([RawText.ofText indexFile] :: (p.sources tree).map p.pageParts).Nodup)
    (hw : (p.outputDir.parts ++ rest, bytes) ∈ p.withIndex mades ws)
    (hup : Path.up ∉ p.outputDir.parts ++ rest) :
    after.read ⟨p.outputDir.root, p.outputDir.parts ++ rest⟩ = .ok bytes := by
  have hnone : tree.nodeAt (p.outputDir.parts ++ rest) = none := by
    cases rest with
    | nil => rwa [List.append_nil]
    | cons name rest =>
      cases hnode : tree.nodeAt (p.outputDir.parts ++ name :: rest) with
      | none => rfl
      | some n =>
        rw [nodeAt_eq_dir_of_below hnode] at hnew
        cases hnew
  refine (read_eq_ok_iff (p := ⟨p.outputDir.root, p.outputDir.parts ++ rest⟩) h.output_abs hup).mpr
    ⟨hm.nodeAt_written hnodup hw, ?_⟩
  rw [hm.wrote.access]
  exact ⟨(hm.generates.canWrite hw).toFollows, access_read_of_none hnone⟩

end Written

/-- What was made is on disk, if all files are different and no source was written over. -/
theorem onDisk_of_produces (h : p.Sound tree) (hd : tree.DistinctNames)
    {mades : List (Page × List Text)} {ws : List (List RawText × Bytes)} {after : FileTree}
    (hm : p.Produces tree mades ws after) (hnew : tree.nodeAt p.outputDir.parts = none)
    (hkept : ∀ s ∈ p.sources tree, ∀ s' ∈ p.sources tree,
      ¬ p.sourceRoot.parts ++ s <+: p.outputDir.parts ++ p.pageParts s')
    (hnodup : ([RawText.ofText indexFile] :: (p.sources tree).map p.pageParts).Nodup) :
    p.OnDisk tree (p.site mades) after := by
  have hg := hm.generates
  refine ⟨?_, fun page hpage => ?_, ?_, ?_⟩
  · rw [← hg.builds.sources, Plan.site, List.map_map]
    rfl
  · obtain ⟨made, hmade, rfl⟩ := List.mem_map.mp hpage
    obtain ⟨s, hs, content, bytes, hnode, ⟨rendered, hrendered, rfl, rfl⟩, hw⟩ :=
      hg.builds.makes_of_kept hkept made hmade
    have hlisted := listed_of_mem_sources h hd s hs
    have hread : tree.read (p.sourcePath s) = .ok content :=
      (read_eq_ok_iff (p := p.sourcePath s) h.root_abs (hlisted.up_notMem_source h)).mpr
        ⟨hnode, (hg.permits s hs).source⟩
    refine ⟨content, rendered, targetFor?_eq hlisted.ne_nil, hread, hrendered, rfl, ?_⟩
    exact hm.read_written h hnew hnodup (List.mem_append_left _ hw) (hlisted.up_notMem_page h)
  · obtain ⟨text, htext⟩ := Option.ne_none_iff_exists'.mp hg.index_encodable
    refine ⟨text, htext, hm.read_written h hnew hnodup (List.mem_append_right _ ?_) (up_notMem_indexPath h)⟩
    rw [htext]
    exact List.mem_singleton_self _
  · rw [hg.builds.written_eq]
    refine List.Nodup.map (fun a b hab => ?_) hnodup
    exact List.append_cancel_left (congrArg Path.parts hab)

/-- **A site is on disk as it was reported exactly when its pages fit.** When the output directory does not
exist yet and there are sources, generating succeeds with all pages and the index in place if and only if no
page is the index, neither a page nor the index stands where a page needs a directory, no file is in the way
to the output directory, the system lets all sources be read and all pages be written, and the names of the
sources can be encoded. -/
theorem generate_onDisk_iff {tree : FileTree} (hd : tree.DistinctNames) {cwd : Path} {r : Request}
    {p : Plan} (hp : Plan.ofRequest tree cwd r = .ok p) (hnew : tree.nodeAt p.outputDir.parts = none)
    (hsome : p.sources tree ≠ []) (events : List Event) :
    (∃ site st, Yields p.generate ⟨tree, events⟩ site st ∧ p.OnDisk tree site st.tree) ↔
      p.Fits tree := by
  have h := sound_of_ofRequest hp
  constructor
  · rintro ⟨site, st, hy, hdisk⟩
    obtain ⟨mades, ws, hm, rfl⟩ := generate_spec h hd hy
    exact fits_of_produces h hd hm hdisk.distinct
  · intro hfits
    obtain ⟨mades, ws, hg⟩ := hfits.exists_generates h hd hnew hsome
    obtain ⟨st, hy, hm⟩ : ∃ st, Yields p.generate ⟨tree, events⟩ (p.site mades) st ∧ _ :=
      exists_generate h hd hg
    exact ⟨_, st, hy, onDisk_of_produces h hd hm hnew (hfits.kept h hd hnew) (hfits.nodup_paths h hd)⟩

end Sites

/-- Two sources, one of them with the given name at the top. -/
def namedTree (name : RawText) : FileTree :=
  .dir [("src".toList, .dir [(name, .file []), ("lib".toList, .dir [("b.java".toList, .file [])])])]

def namedPlan : Plan :=
  { sourceRoot := ⟨"/".toList, ["src".toList]⟩
    outputDir := ⟨"/".toList, ["out".toList]⟩
    extension := "java".toList
    flavor := Flavor.javadoc
    headingLevel := 1
    excludes := effectiveExcludes [] }

def namedRequest : Request :=
  { source := .ofText "src".toList, output := .ofText "out".toList, extension := "java".toList }

def namedSources (name : RawText) : List (List RawText) := [[name], ["lib".toList, "b.java".toList]]

/-- A name that begins with a stray byte. -/
def strayName : RawText := .stray 127 :: RawText.ofText ".java".toList

theorem distinctNames_namedTree {name : RawText} (h : name ≠ RawText.ofText "lib".toList) :
    (namedTree name).DistinctNames := by
  refine .dir (List.nodup_singleton _) (List.forall_mem_singleton.mpr (.dir ?_ ?_))
  · simpa using h
  · have hlib : DistinctNames (.dir [(RawText.ofText "b.java".toList, .file [])]) :=
      .dir (List.nodup_singleton _) (List.forall_mem_singleton.mpr .file)
    exact List.forall_mem_cons.mpr ⟨.file, List.forall_mem_singleton.mpr hlib⟩

/-- An ordinary site is on disk. One with a source that takes the name of the index is not, and neither is one
with a name that the index cannot hold. -/
theorem generate_onDisk_iff_samples :
    (Plan.ofRequest (namedTree "a.java".toList) .top namedRequest = .ok namedPlan ∧
      namedPlan.sources (namedTree "a.java".toList) = namedSources "a.java".toList ∧
      ∃ site st, Yields namedPlan.generate ⟨namedTree "a.java".toList, []⟩ site st ∧
        namedPlan.OnDisk (namedTree "a.java".toList) site st.tree) ∧
    (Plan.ofRequest (namedTree "_index.java".toList) .top namedRequest = .ok namedPlan ∧
      namedPlan.sources (namedTree "_index.java".toList) = namedSources "_index.java".toList ∧
      ¬ ∃ site st, Yields namedPlan.generate ⟨namedTree "_index.java".toList, []⟩ site st ∧
        namedPlan.OnDisk (namedTree "_index.java".toList) site st.tree) ∧
    [strayName] ∈ namedPlan.sources (namedTree strayName) ∧
      ¬ ∃ site st, Yields namedPlan.generate ⟨namedTree strayName, []⟩ site st ∧
        namedPlan.OnDisk (namedTree strayName) site st.tree := by
  have hp : ∀ name, Plan.ofRequest (namedTree name) .top namedRequest = .ok namedPlan := fun _ => rfl
  have hsources : namedPlan.sources (namedTree "a.java".toList) = namedSources "a.java".toList :=
    sources_eq_of_walk (sound_of_ofRequest (hp _)) rfl (by decide) rfl (by decide)
  have hsources' : namedPlan.sources (namedTree "_index.java".toList) = namedSources "_index.java".toList :=
    sources_eq_of_walk (sound_of_ofRequest (hp _)) rfl (by decide) rfl (by decide)
  have hstray : [strayName] ∈ namedPlan.sources (namedTree strayName) := by
    obtain ⟨es, r, hes, hsources⟩ := sources_eq (sound_of_ofRequest (hp strayName)) (by decide)
    cases hes
    rw [hsources]
    exact List.mem_mergeSort.mpr (by decide)
  have hfits : namedPlan.Fits (namedTree "a.java".toList) := by
    refine
      { way_clear := fun q hq b hfile => ?_
        permits := by
          rw [hsources]
          exact List.forall_mem_cons.mpr ⟨⟨by decide, by decide⟩, by
            simpa [namedSources] using ⟨by decide, by decide⟩⟩
        index_writable := by decide
        names_encodable := by rw [hsources]; decide
        index_apart := by rw [hsources]; decide
        page_not_dir := by rw [hsources]; decide
        index_not_dir := by rw [hsources]; decide }
    rcases List.prefix_cons_iff.mp hq with rfl | ⟨below, rfl, hbelow⟩
    · cases hfile
    · obtain rfl := List.prefix_nil.mp hbelow
      cases hfile
  refine ⟨⟨hp _, hsources, ?_⟩, ⟨hp _, hsources', fun hdisk => ?_⟩, hstray, fun hdisk => ?_⟩
  · exact (generate_onDisk_iff (distinctNames_namedTree (by decide)) (hp _) rfl
      (hsources ▸ List.cons_ne_nil _ _) []).mpr hfits
  · have hfits' := (generate_onDisk_iff (distinctNames_namedTree (by decide)) (hp _) rfl
      (hsources' ▸ List.cons_ne_nil _ _) []).mp hdisk
    exact hfits'.index_apart (hsources' ▸ List.mem_cons_self)
  · have hfits' := (generate_onDisk_iff (distinctNames_namedTree (by decide)) (hp _) rfl
      (List.ne_nil_of_mem hstray) []).mp hdisk
    exact absurd (hfits'.names_encodable [strayName] hstray strayName List.mem_cons_self) (by decide)

end DocMark.Site
