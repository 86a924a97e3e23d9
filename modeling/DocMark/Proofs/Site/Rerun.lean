import DocMark.Proofs.Site.Building

/-!
A site made a second time.

Pages are never listed as sources when they go strictly below the source directory, and they cannot be when
they go elsewhere or when sources have another extension. What remains is a page at a path that the walk comes
upon. Making the site leaves the sources alone, and making it again changes nothing, exactly when every such page
has the bytes that stood there before (`generate_repeatable_iff`).
-/

namespace DocMark.Site

open FileTree

/-- Making the site left its sources alone, and making it again reports the same site and changes
nothing. -/
structure Plan.Repeatable (p : Plan) (before : FileTree) (site : Finished) (after : FileTree) : Prop where
  sources_kept : ∀ s ∈ p.sources before,
    after.read (p.sourceRoot ++ (⟨[], s⟩ : Path)) = before.read (p.sourceRoot ++ (⟨[], s⟩ : Path))
  again : ∀ events, ∃ st, Yields p.generate ⟨after, events⟩ site st ∧
    ∀ path, st.tree.nodeAt path = after.nodeAt path

/-- A path of a file is read alike when the same stands there. -/
theorem read_eq_read_iff {t t' : FileTree} {p : Path} {b : Bytes} (hroot : p.root ≠ [])
    (hup : Path.up ∉ p.parts) (haccess : t'.access = t.access) (hread : CanRead t.access p)
    (hfile : t.nodeAt p.parts = some (.file b)) :
    t'.read p = t.read p ↔ t'.nodeAt p.parts = t.nodeAt p.parts := by
  rw [(read_eq_ok_iff hroot hup).mpr ⟨hfile, hread⟩, read_eq_ok_iff hroot hup, hfile, haccess]
  exact and_iff_left hread

/-! ### The second run -/

/-- What was written over files that the walk comes upon is what stood there. -/
def Plan.KeepsSeen (p : Plan) (before after : FileTree) (ws : List (List RawText × Bytes)) : Prop :=
  ∀ w ∈ ws, ∀ path, p.Sees before path → w.1 = p.sourceRoot.parts ++ path →
    after.nodeAt w.1 = before.nodeAt w.1

section Again

variable {p : Plan} {tree after : FileTree} {mades : List (Page × List Text)}
  {ws : List (List RawText × Bytes)} {path : List RawText}

/-- Making a site leaves the plan sound. -/
theorem Plan.Produces.sound (hm : p.Produces tree mades ws after) (h : p.Sound tree) : p.Sound after :=
  { h with
    root_dir := by
      rw [hm.wrote.nodes]
      exact hm.generates.writable.dir_kept h.root_dir
    root_follows := by
      rw [hm.wrote.access]
      exact h.root_follows }

/-- The walk comes upon the same paths after the site was made. -/
theorem Plan.Produces.sees_iff (hm : p.Produces tree mades ws after) :
    p.Sees after path ↔ p.Sees tree path := by
  constructor
  · exact fun hs => ⟨hs.listed, hm.wrote.access ▸ hs.dirs_readable⟩
  · exact fun hs => ⟨hs.listed, hm.wrote.access.symm ▸ hs.dirs_readable⟩

namespace Plan.KeepsSeen

/-- Sources are left as they were. -/
theorem nodeAt_eq (hk : p.KeepsSeen tree after (p.withIndex mades ws))
    (hm : p.Produces tree mades ws after) (hs : p.IsSource tree path) :
    after.nodeAt (p.sourceRoot.parts ++ path) = tree.nodeAt (p.sourceRoot.parts ++ path) := by
  obtain ⟨hsees, content, hfile⟩ := hs
  by_cases hwritten : ∃ w ∈ p.withIndex mades ws, p.sourceRoot.parts ++ path = w.1
  · obtain ⟨w, hw, heq⟩ := hwritten
    rw [heq]
    exact hk w hw path hsees heq.symm
  · rw [hfile, hm.wrote.nodes]
    exact hm.generates.writable.file_kept hfile fun w hw heq => hwritten ⟨w, hw, heq⟩

/-- The same files are sources after the site was made. -/
theorem isSource_iff (hk : p.KeepsSeen tree after (p.withIndex mades ws))
    (hm : p.Produces tree mades ws after) : p.IsSource after path ↔ p.IsSource tree path := by
  constructor
  · rintro ⟨hsees, content, hfile⟩
    have hsees := hm.sees_iff.mp hsees
    refine ⟨hsees, content, ?_⟩
    have hcases := hfile
    rw [hm.wrote.nodes] at hcases
    rcases writeAll_eq_file hcases with hold | ⟨w, hw, heq⟩
    · exact hold
    · have hsame := hk w hw path hsees heq.symm
      rw [← heq, hfile] at hsame
      exact hsame.symm
  · intro hs
    have hsame := hk.nodeAt_eq hm hs
    obtain ⟨hsees, content, hfile⟩ := hs
    exact ⟨hm.sees_iff.mpr hsees, content, hsame.trans hfile⟩

/-- A site can be made again if what the walk comes upon was left as it was. -/
theorem generates (hk : p.KeepsSeen tree after (p.withIndex mades ws))
    (hm : p.Produces tree mades ws after) (h : p.Sound tree) (hd : tree.DistinctNames) :
    p.Generates after.access after.nodeAt (p.sources after) mades ws := by
  have hsources : p.sources after = p.sources tree :=
    sources_congr h hd (hm.sound h) hm.distinct fun path => hk.isSource_iff hm
  have hg := hm.generates
  obtain ⟨hwritable, hindex⟩ := Writable.concat_iff.mp (hg.writable.again hm.wrote.nodes)
  rw [hsources, hm.wrote.access]
  refine ⟨hg.some_source, hg.builds.replay hwritable fun s hs => ?_, hg.permits, hindex, hg.index_writable,
    hg.index_encodable⟩
  exact hk.nodeAt_eq hm ((mem_sources_iff h hd).mp hs)

/-- A plan whose sources were kept can be carried out again. -/
theorem repeatable (hk : p.KeepsSeen tree after (p.withIndex mades ws))
    (hm : p.Produces tree mades ws after) (h : p.Sound tree) (hd : tree.DistinctNames) :
    p.Repeatable tree (p.site mades) after := by
  refine ⟨fun s hs => ?_, fun events => ?_⟩
  · have hsource := (mem_sources_iff h hd).mp hs
    have hsame := hk.nodeAt_eq hm hsource
    obtain ⟨hsees, content, hfile⟩ := hsource
    exact (read_eq_read_iff (p := p.sourcePath s) h.root_abs (hsees.listed.up_notMem_source h)
      hm.wrote.access (hm.generates.permits s hs).source hfile).mpr hsame
  · obtain ⟨st, hy, hst⟩ : ∃ st, Yields p.generate ⟨after, events⟩ (p.site mades) st ∧ _ :=
      exists_generate (hm.sound h) hm.distinct (hk.generates hm h hd)
    refine ⟨st, hy, fun path => ?_⟩
    rw [hst.wrote.nodes, hm.wrote.nodes, writeAll_writeAll]

end Plan.KeepsSeen

/-- A page that the walk comes upon is a source of the second run. The second run has the sources of the first,
and those were left alone. -/
theorem Plan.Repeatable.keepsSeen (hr : p.Repeatable tree (p.site mades) after)
    (hm : p.Produces tree mades ws after) (h : p.Sound tree) (hd : tree.DistinctNames) :
    p.KeepsSeen tree after (p.withIndex mades ws) := by
  have h' := hm.sound h
  have hg := hm.generates
  have hsources : p.sources after = p.sources tree := by
    obtain ⟨st, hy, -⟩ := hr.again []
    obtain ⟨mades', ws', hm', hsite⟩ := generate_spec h' hm.distinct hy
    have hpages : mades.map (·.1) = mades'.map (·.1) := congrArg Finished.pages hsite
    have heq := congrArg (List.map Page.source) hpages
    rw [List.map_map, List.map_map] at heq
    have hinj : Function.Injective fun s : List RawText => (⟨[], s⟩ : Path) :=
      fun _ _ hab => congrArg Path.parts hab
    exact hinj.list_map ((hm'.generates.builds.sources.symm.trans heq.symm).trans hg.builds.sources)
  intro w hw path hsees heq
  obtain ⟨b, hfile⟩ := hg.writable.exists_file hw
  rw [← hm.wrote.nodes, heq] at hfile
  have hs : path ∈ p.sources tree := by
    rw [← hsources]
    exact (mem_sources_iff h' hm.distinct).mpr ⟨hm.sees_iff.mpr hsees, b, hfile⟩
  obtain ⟨-, content, hold⟩ := (mem_sources_iff h hd).mp hs
  rw [heq]
  exact (read_eq_read_iff (p := p.sourcePath path) h.root_abs (hsees.listed.up_notMem_source h)
    hm.wrote.access (hg.permits path hs).source hold).mp (hr.sources_kept path hs)

/-- A written file that the walk comes upon can be read: it was a source, or it is new. -/
theorem Plan.Produces.canRead (hm : p.Produces tree mades ws after) (h : p.Sound tree)
    (hd : tree.DistinctNames) {w : List RawText × Bytes} (hw : w ∈ p.withIndex mades ws)
    (hsees : p.Sees tree path) (heq : w.1 = p.sourceRoot.parts ++ path) :
    CanRead tree.access ⟨p.outputDir.root, w.1⟩ := by
  have hg := hm.generates
  refine ⟨(hg.canWrite hw).toFollows, ?_⟩
  cases hnode : tree.nodeAt w.1 with
  | none => exact access_read_of_none hnode
  | some n =>
    cases n with
    | dir =>
      obtain ⟨b, hfile⟩ := hg.writable.exists_file hw
      rw [hg.writable.dir_kept hnode] at hfile
      cases hfile
    | file b =>
      have hs : path ∈ p.sources tree := (mem_sources_iff h hd).mpr ⟨hsees, b, heq ▸ hnode⟩
      rw [heq]
      exact (hg.permits path hs).source.read

/-- What the walk comes upon was left as it was exactly if every file reads as before. -/
theorem keepsSeen_iff (hm : p.Produces tree mades ws after) (h : p.Sound tree) (hd : tree.DistinctNames) :
    p.KeepsSeen tree after (p.withIndex mades ws) ↔
      ∀ file ∈ p.written (p.site mades), ∀ path, p.Sees tree path →
        file.parts = p.sourceRoot.parts ++ path → after.read file = tree.read file := by
  have hg := hm.generates
  -- At a written path stands a file, so reading it tells what stands there.
  have hread : ∀ w ∈ p.withIndex mades ws, ∀ path, p.Sees tree path →
      w.1 = p.sourceRoot.parts ++ path →
      (after.read ⟨p.outputDir.root, w.1⟩ = tree.read ⟨p.outputDir.root, w.1⟩ ↔
        after.nodeAt w.1 = tree.nodeAt w.1) := by
    intro w hw path hsees heq
    obtain ⟨b, hfile⟩ := hg.writable.exists_file hw
    rw [← hm.wrote.nodes] at hfile
    have hup : Path.up ∉ w.1 := heq ▸ hsees.listed.up_notMem_source h
    have hcan : CanRead after.access ⟨p.outputDir.root, w.1⟩ := by
      rw [hm.wrote.access]
      exact hm.canRead h hd hw hsees heq
    rw [eq_comm, read_eq_read_iff (p := ⟨p.outputDir.root, w.1⟩) h.output_abs hup hm.wrote.access.symm hcan
      hfile, eq_comm]
  constructor
  · intro hk file hfile path hsees heq
    obtain ⟨w, hw, rfl⟩ := hg.builds.mem_written_iff.mp hfile
    exact (hread w hw path hsees heq).mpr (hk w hw path hsees heq)
  · intro hfiles w hw path hsees heq
    have hfile := hg.builds.mem_written_iff.mpr ⟨w, hw, rfl⟩
    exact (hread w hw path hsees heq).mp (hfiles _ hfile path hsees heq)

end Again

/-! ### Pages away from the sources -/

section Apart

variable {p : Plan} {path : List RawText}

/-- When the pages go strictly below the source directory, or elsewhere, none is at a listed path. -/
theorem ne_listed_of_output (hout : ¬ p.outputDir.parts <+: p.sourceRoot.parts) (hs : p.Listed path)
    (dirs : List RawText) (name : RawText) :
    p.outputDir.parts ++ (dirs ++ [name]) ≠ p.sourceRoot.parts ++ path := by
  intro heq
  obtain ⟨dirs', f, rfl, hlists⟩ := hs
  have hroot : p.sourceRoot.parts <+: p.outputDir.parts ++ (dirs ++ [name]) := ⟨_, heq.symm⟩
  rcases List.prefix_or_prefix_of_prefix hroot (List.prefix_append _ _) with hbelow | habove
  · obtain ⟨out, hparts⟩ := hbelow
    have hne : out ≠ [] := by
      rintro rfl
      rw [List.append_nil] at hparts
      exact hout (hparts ▸ List.prefix_refl _)
    -- The directory of the pages is one of the directories above the listed file.
    rw [← hparts, List.append_assoc, List.append_cancel_left_eq, ← List.append_assoc] at heq
    obtain ⟨rfl, -⟩ := List.append_inj' heq rfl
    exact hlists.output_apart out hparts.symm hne _ (List.prefix_refl _) (List.prefix_append out dirs)
  · exact hout habove

/-- When sources have another extension, no page has a listed name. -/
theorem ne_listed_of_extension (hext : ¬ ".md".toList <:+ '.' :: p.extension) (hs : p.Listed path)
    (dirs : List RawText) (base : RawText) :
    p.outputDir.parts ++ (dirs ++ [base ++ RawText.ofText ".md".toList]) ≠ p.sourceRoot.parts ++ path := by
  intro heq
  obtain ⟨dirs', f, rfl, hlists⟩ := hs
  rw [← List.append_assoc, ← List.append_assoc] at heq
  obtain ⟨-, hname⟩ := List.append_inj' heq rfl
  have hsuffix : suffix p.extension <:+ base ++ RawText.ofText ".md".toList :=
    List.singleton_inj.mp hname ▸ hlists.file_suffix
  rcases List.suffix_or_suffix_of_suffix (List.suffix_append base (RawText.ofText ".md".toList)) hsuffix
    with hmd | hshort
  · exact hext (RawText.ofText_suffix_iff.mp hmd)
  · -- The only end of the ending that begins with a point is the ending itself.
    have hcases : '.' :: p.extension = ".md".toList := by
      simpa [List.suffix_cons_iff] using RawText.ofText_suffix_iff.mp hshort
    exact hext (hcases ▸ List.suffix_refl _)

/-- A written file has a name with the ending of pages. -/
theorem Plan.Builds.exists_md {v : List RawText → Option Node} {ss : List (List RawText)}
    {mades : List (Page × List Text)} {ws : List (List RawText × Bytes)} (h : p.Builds v ss mades ws)
    {w : List RawText × Bytes} (hw : w ∈ p.withIndex mades ws) :
    ∃ dirs base, w.1 = p.outputDir.parts ++ (dirs ++ [base ++ RawText.ofText ".md".toList]) := by
  rcases List.mem_append.mp hw with hpage | hindex
  · obtain ⟨s, -, heq⟩ := h.exists_source hpage
    exact ⟨_, _, heq⟩
  · rw [List.mem_singleton.mp hindex]
    exact ⟨[], RawText.ofText "_index".toList, rfl⟩

end Apart

/-! ### Repeatable sites -/

/-- **A site can be made again exactly when it was not written over listed files.** After a site was made,
the same request gives the same plan. The sources are as they were, and making the site again reports the
same and changes nothing, if and only if every written file that the walk comes upon has the bytes that were
there before. That holds unless the pages go to the source directory or above it, and the extension ends like
that of a page. -/
theorem generate_repeatable_iff {tree : FileTree} (hd : tree.DistinctNames) {cwd : Path} {r : Request}
    {p : Plan} (hp : Plan.ofRequest tree cwd r = .ok p) {events : List Event} {site : Finished}
    {st : Progress} (hy : Yields p.generate ⟨tree, events⟩ site st) :
    Plan.ofRequest st.tree cwd r = .ok p ∧
      (p.Repeatable tree site st.tree ↔
        ∀ file ∈ p.written site, ∀ path, p.Sees tree path → file.parts = p.sourceRoot.parts ++ path →
          st.tree.read file = tree.read file) ∧
      (¬ p.outputDir.parts <+: p.sourceRoot.parts ∨ ¬ ".md".toList <:+ '.' :: p.extension →
        p.Repeatable tree site st.tree) := by
  have h := sound_of_ofRequest hp
  obtain ⟨mades, ws, hm, rfl⟩ := generate_spec h hd hy
  have h' := hm.sound h
  have hdir : st.tree.hasDir p.sourceRoot = true :=
    (hasDir_iff h.root_abs h.root_ups).mpr ⟨h'.root_dir, h'.root_follows⟩
  refine ⟨ofRequest_congr hp hdir, ?_, fun hapart => ?_⟩
  · rw [← keepsSeen_iff hm h hd]
    constructor
    · exact fun hr => hr.keepsSeen hm h hd
    · exact fun hk => hk.repeatable hm h hd
  · refine Plan.KeepsSeen.repeatable (fun w hw path hsees heq => ?_) hm h hd
    obtain ⟨dirs, base, hmd⟩ := hm.generates.builds.exists_md hw
    rw [hmd] at heq
    rcases hapart with hout | hext
    · exact absurd heq (ne_listed_of_output hout hsees.listed dirs _)
    · exact absurd heq (ne_listed_of_extension hext hsees.listed dirs base)

/-- A site of one source can be made when its page and the index have room. -/
theorem exists_generate_of_single {p : Plan} {tree : FileTree} (h : p.Sound tree) (hd : tree.DistinctNames)
    {s : List RawText} {content : Bytes} (hsources : p.sources tree = [s])
    (hnode : tree.nodeAt (p.sourceRoot.parts ++ s) = some (.file content))
    (hpermits : p.Permits tree.access s) (hindex : CanWrite tree.access p.indexPath)
    (hfree : Free tree.nodeAt (p.outputDir.parts ++ p.pageParts s))
    (hfree' : Free tree.nodeAt p.indexPath.parts)
    (hapart : ¬ p.pageParts s <+: [RawText.ofText indexFile] ∧ ¬ [RawText.ofText indexFile] <+: p.pageParts s)
    (hplain : ∀ name ∈ s, RawText.Encodable name) (events : List Event) :
    ∃ site st, Yields p.generate ⟨tree, events⟩ site st := by
  obtain ⟨made, bytes, hmakes⟩ := exists_makes h.flavor s content
  have hbuilds : p.Builds tree.nodeAt [s] [made] [(p.outputDir.parts ++ p.pageParts s, bytes)] :=
    .cons hnode hmakes hfree (.nil _)
  have hg : p.Generates tree.access tree.nodeAt (p.sources tree) [made]
      [(p.outputDir.parts ++ p.pageParts s, bytes)] := by
    rw [hsources]
    refine ⟨List.cons_ne_nil _ _, hbuilds, by simpa using hpermits, hfree'.writeAll fun w hw => ?_, hindex,
      hbuilds.index_encodable_iff.mpr (by simpa using hplain)⟩
    rw [List.mem_singleton.mp hw]
    exact ⟨mt (List.prefix_append_right_inj _).mp hapart.1, mt (List.prefix_append_right_inj _).mp hapart.2⟩
  obtain ⟨st, hy, -⟩ : ∃ st, Yields p.generate ⟨tree, events⟩ (p.site [made]) st ∧ _ :=
    exists_generate h hd hg
  exact ⟨_, st, hy⟩

def singleTree (name : RawText) : FileTree := .dir [("src".toList, .dir [(name, .file [])])]

/-- The pages go beside the sources. -/
def besideRequest (extension : Text) : Request :=
  { source := .ofText "src".toList, output := .ofText "src".toList, extension }

def besidePlan (extension : Text) : Plan :=
  { sourceRoot := ⟨"/".toList, ["src".toList]⟩
    outputDir := ⟨"/".toList, ["src".toList]⟩
    extension
    flavor := Flavor.javadoc
    headingLevel := 1
    excludes := effectiveExcludes [] }

/-- Beside its sources a site can be made again when they have another extension, and not when they have
that of pages: then the index is a source of the second run. -/
theorem generate_repeatable_iff_beside :
    (∃ site st, Yields (besidePlan "java".toList).generate ⟨singleTree "a.java".toList, []⟩ site st ∧
      (besidePlan "java".toList).Repeatable (singleTree "a.java".toList) site st.tree) ∧
    ∃ site st, Yields (besidePlan "md".toList).generate ⟨singleTree "a.md".toList, []⟩ site st ∧
      ¬ (besidePlan "md".toList).Repeatable (singleTree "a.md".toList) site st.tree := by
  have hd : (singleTree "a.java".toList).DistinctNames :=
    distinctNames_ofListing ⟨"/".toList, []⟩ [("src/a.java".toList, .str [])]
  have hd' : (singleTree "a.md".toList).DistinctNames :=
    distinctNames_ofListing ⟨"/".toList, []⟩ [("src/a.md".toList, .str [])]
  have hp : Plan.ofRequest (singleTree "a.java".toList) ⟨"/".toList, []⟩ (besideRequest "java".toList) =
      .ok (besidePlan "java".toList) := rfl
  have hp' : Plan.ofRequest (singleTree "a.md".toList) ⟨"/".toList, []⟩ (besideRequest "md".toList) =
      .ok (besidePlan "md".toList) := rfl
  have h := sound_of_ofRequest hp
  have h' := sound_of_ofRequest hp'
  constructor
  · obtain ⟨site, st, hy⟩ := exists_generate_of_single h hd (s := ["a.java".toList])
      (sources_eq_of_walk h rfl (by decide) rfl (List.pairwise_singleton _ _)) rfl
      ⟨by decide, by decide⟩ (by decide) (.of_dir ["src".toList] rfl (by decide))
      (.of_dir ["src".toList] rfl (by decide)) (by decide) (by decide) []
    exact ⟨site, st, hy, (generate_repeatable_iff hd hp hy).2.2 (Or.inr (by decide))⟩
  · obtain ⟨site, st, hy⟩ := exists_generate_of_single h' hd' (s := ["a.md".toList])
      (sources_eq_of_walk h' rfl (by decide) rfl (List.pairwise_singleton _ _)) rfl
      ⟨by decide, by decide⟩ (by decide) (.of_dir ["src".toList] rfl (by decide))
      (.of_dir ["src".toList] rfl (by decide)) (by decide) (by decide) []
    refine ⟨site, st, hy, fun hr => ?_⟩
    have hlisted : (besidePlan "md".toList).Listed [RawText.ofText indexFile] := by
      refine ⟨[], indexFile, rfl, by decide, by decide, by simp, by simp, fun q hq hne => ?_, ?_⟩
      · exact absurd (List.prefix_nil.mp hq) hne
      · intro out hout hne
        exact absurd (List.self_eq_append_right.mp hout) hne
    have hsees : (besidePlan "md".toList).Sees (singleTree "a.md".toList) [RawText.ofText indexFile] := by
      refine ⟨hlisted, fun q hq hne => ?_⟩
      rcases List.prefix_cons_iff.mp hq with rfl | ⟨rest, rfl, hrest⟩
      · decide
      · exact absurd (congrArg (_ :: ·) (List.prefix_nil.mp hrest)) hne
    obtain ⟨mades, ws, hm, -⟩ := generate_spec h' hd' hy
    obtain ⟨b, hb⟩ := hm.exists_index
    -- There was no index before.
    have hread := (generate_repeatable_iff hd' hp' hy).2.1.mp hr _ List.mem_cons_self _ hsees rfl
    have hcan : CanRead st.tree.access (besidePlan "md".toList).indexPath := by
      rw [hm.wrote.access]
      decide
    rw [(read_eq_ok_iff (by decide) (by decide)).mpr ⟨hb, hcan⟩] at hread
    cases hread

end DocMark.Site
