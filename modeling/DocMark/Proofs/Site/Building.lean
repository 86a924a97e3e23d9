import DocMark.Proofs.Document.Headings
import DocMark.Proofs.FileTree.Sequences
import DocMark.Proofs.Site.Walk

/-!
How a site is built.

Making the pages is a sequence of steps on the nodes of the tree: each step reads a source, renders it, and
writes the page (`Plan.Builds`). The index is written last. Generating a site yields exactly what such a
sequence gives, and it succeeds whenever there is one (`generate_spec`, `exists_generate`).
-/

namespace DocMark.Site

open FileTree

/-! ### Where pages go -/

def Plan.pageParts (p : Plan) (s : List RawText) : List RawText :=
  let name := s.getLastD []
  s.dropLast ++ [name.take (name.length - (p.extension.length + 1)) ++ RawText.ofText ".md".toList]

section PageParts

variable {p : Plan} {s : List RawText}

/-- The page of a source stands below the output directory as the source does below its own. -/
theorem targetFor?_eq (hs : s ≠ []) :
    targetFor? p.extension ⟨[], s⟩ = some ⟨[], p.pageParts s⟩ := by
  rw [targetFor?, Path.withName?, if_neg hs]
  rfl

theorem pageParts_concat (dirs : List RawText) (base : RawText) :
    p.pageParts (dirs ++ [base ++ suffix p.extension]) = dirs ++ [base ++ RawText.ofText ".md".toList] := by
  simp [Plan.pageParts, suffix, RawText.ofText]

/-- A listed path has a name with the extension, below directories. -/
theorem Plan.Listed.exists_base (h : p.Listed s) :
    ∃ dirs base, s = dirs ++ [base ++ suffix p.extension] ∧ p.Lists dirs (base ++ suffix p.extension) := by
  obtain ⟨dirs, f, rfl, hlists⟩ := h
  obtain ⟨base, rfl⟩ := hlists.file_suffix
  exact ⟨dirs, base, rfl, hlists⟩

theorem Plan.Listed.up_notMem_pageParts (h : p.Listed s) : Path.up ∉ p.pageParts s := by
  have hup := h.up_notMem
  obtain ⟨dirs, base, rfl, -⟩ := h.exists_base
  rw [pageParts_concat]
  intro hmem
  rcases List.mem_append.mp hmem with hdir | hpage
  · exact hup (List.mem_append_left _ hdir)
  · have hlast := congrArg List.getLast? (List.mem_singleton.mp hpage)
    simp [Path.up, RawText.ofText] at hlast

theorem Plan.Listed.up_notMem_source {tree : FileTree} (hs : p.Listed s) (h : p.Sound tree) :
    Path.up ∉ p.sourceRoot.parts ++ s := by
  simp [h.root_ups, hs.up_notMem]

theorem Plan.Listed.up_notMem_page {tree : FileTree} (hs : p.Listed s) (h : p.Sound tree) :
    Path.up ∉ p.outputDir.parts ++ p.pageParts s := by
  simp [h.output_ups, hs.up_notMem_pageParts]

/-- Different sources have different pages. -/
theorem Plan.Listed.eq_of_pageParts_eq {s' : List RawText} (h : p.Listed s) (h' : p.Listed s')
    (heq : p.pageParts s = p.pageParts s') : s = s' := by
  obtain ⟨dirs, base, rfl, -⟩ := h.exists_base
  obtain ⟨dirs', base', rfl, -⟩ := h'.exists_base
  rw [pageParts_concat, pageParts_concat] at heq
  obtain ⟨rfl, hbase⟩ := List.append_inj' heq rfl
  obtain rfl : base = base' := by simpa using hbase
  rfl

end PageParts

/-! ### Steps of the work -/

section Steps

variable {st st' : Progress} {e : SiteError}

/-- Work on the files of a site is work on its tree. -/
theorem yields_onFiles_iff {act : ExceptT FileError (StateM FileTree) Unit} :
    Yields (Build.onFiles act) st () st' ↔
      ∃ tree, Yields act st.tree () tree ∧ { st with tree := tree } = st' := by
  unfold Build.onFiles
  simp only [yields_bind_iff, yields_get_iff]
  rcases hrun : act.run.run st.tree with ⟨r, tree⟩
  constructor
  · rintro ⟨_, _, ⟨rfl, rfl⟩, h⟩
    rw [hrun] at h
    obtain ⟨_, _, hmodify, h⟩ := yields_bind_iff.mp h
    obtain rfl := yields_modify_iff.mp hmodify
    cases r with
    | ok u => exact ⟨tree, hrun, (yields_pure_iff.mp h).2⟩
    | error e => exact absurd h not_yields_throw
  · rintro ⟨tree', h, rfl⟩
    cases hrun.symm.trans h
    refine ⟨st, st, ⟨rfl, rfl⟩, ?_⟩
    rw [hrun]
    exact yields_bind_iff.mpr ⟨⟨⟩, _, yields_modify_iff.mpr rfl, yields_pure_iff.mpr ⟨rfl, rfl⟩⟩

/-- A page that was written stands in the tree. -/
theorem writePage_spec {q : Path} {content : Text} (hroot : q.root ≠ [])
    (hup : Path.up ∉ q.parts) (h : Yields (Build.writePage q content) st () st') :
    st.tree.HasFile q (Utf8.encode content) st'.tree := by
  obtain ⟨_, _, hlog, hfiles⟩ := yields_bind_iff.mp h
  obtain rfl := yields_modify_iff.mp hlog
  obtain ⟨tree, hwrite, rfl⟩ := yields_onFiles_iff.mp hfiles
  exact save_spec hroot hup hwrite

/-- A page can be written where it has room and the rights allow it. -/
theorem exists_writePage {q : Path} (content : Text) (hroot : q.root ≠ [])
    (hup : Path.up ∉ q.parts) (hne : q.parts ≠ []) (hfree : Free st.tree.nodeAt q.parts)
    (h : CanWrite st.tree.access q) :
    ∃ st', Yields (Build.writePage q content) st () st' ∧
      st.tree.HasFile q (Utf8.encode content) st'.tree := by
  obtain ⟨tree, hwrite⟩ := exists_save .top hroot hup hne hfree h (Utf8.encode content)
  have hpage : ∃ st', Yields (Build.writePage q content) st () st' :=
    ⟨_, yields_bind_iff.mpr ⟨(), _, yields_modify_iff.mpr rfl,
      yields_onFiles_iff.mpr ⟨tree, hwrite, rfl⟩⟩⟩
  obtain ⟨st', hpage⟩ := hpage
  exact ⟨st', hpage, writePage_spec hroot hup hpage⟩

end Steps

/-! ### Pages -/

/-- What is reported of a source: the record of its page, and the warnings. -/
def Plan.report (p : Plan) (s : List RawText) (content : Bytes) (rendered : Document.Rendered) :
    Page × List Text :=
  (⟨⟨[], s⟩, ⟨[], p.pageParts s⟩, rendered.renderedSections⟩,
    (readSource (s.getLastD []) content).2 ++ if rendered.totalSections = 0 then
      ["No doc comments found in ".toList ++ Path.toText ⟨[], s⟩] else [])

/-- What comes of a source with the given bytes: its report, and the bytes of its page. -/
def Plan.Makes (p : Plan) (s : List RawText) (content : Bytes) (made : Page × List Text) (bytes : Bytes) :
    Prop :=
  ∃ rendered, Document.render ⟨p.flavor, p.headingLevel⟩ (readSource (s.getLastD []) content).1 =
      .ok rendered ∧
    made = p.report s content rendered ∧ bytes = Utf8.encode rendered.markdown

def Plan.sourcePath (p : Plan) (s : List RawText) : Path := ⟨p.sourceRoot.root, p.sourceRoot.parts ++ s⟩

def Plan.pagePath (p : Plan) (s : List RawText) : Path :=
  ⟨p.outputDir.root, p.outputDir.parts ++ p.pageParts s⟩

/-- The system lets a source be read and its page be written. -/
structure Plan.Permits (p : Plan) (rights : List RawText → Rights) (s : List RawText) : Prop where
  source : CanRead rights (p.sourcePath s)
  page : CanWrite rights (p.pagePath s)

theorem exists_makes {p : Plan} (h : p.flavor ∈ Flavor.named) (s : List RawText) (content : Bytes) :
    ∃ made bytes, p.Makes s content made bytes := by
  obtain ⟨rendered, hrendered⟩ := Document.exists_render (Flavor.isSpecified_of_mem_named h)
    p.headingLevel (readSource (s.getLastD []) content).1
  exact ⟨_, _, rendered, hrendered, rfl, rfl⟩

section Pages

variable {p : Plan} {tree : FileTree} {st st' : Progress} {s : List RawText} {made : Page × List Text}

/-- Making a page is reading the source, rendering it, and writing the page. -/
theorem yields_makePage_iff (hs : s ≠ []) :
    Yields (p.makePage s) st made st' ↔
      ∃ content rendered st₁, st.tree.read (p.sourcePath s) = .ok content ∧
        Document.render ⟨p.flavor, p.headingLevel⟩ (readSource (s.getLastD []) content).1 = .ok rendered ∧
        Yields (Build.log (Document.events ⟨p.flavor, p.headingLevel⟩
          (readSource (s.getLastD []) content).1 rendered)) st () st₁ ∧
        Yields (Build.writePage (p.pagePath s) rendered.markdown) st₁ () st' ∧
        p.report s content rendered = made := by
  unfold Plan.makePage
  simp only [targetFor?_eq hs, Path.append_relative, Plan.sourcePath, Plan.pagePath, Path.name,
    yields_bind_iff, yields_get_iff]
  constructor
  · rintro ⟨_, _, ⟨rfl, rfl⟩, h⟩
    split at h
    · rename_i content hread
      rw [pure_bind] at h
      split at h
      · rename_i rendered hrendered
        rw [pure_bind] at h
        obtain ⟨_, st₁, hlog, h⟩ := yields_bind_iff.mp h
        rw [pure_bind] at h
        obtain ⟨_, st₂, hwrite, h⟩ := yields_bind_iff.mp h
        obtain ⟨rfl, rfl⟩ := yields_pure_iff.mp h
        exact ⟨content, rendered, st₁, hread, hrendered, hlog, hwrite, rfl⟩
      · obtain ⟨_, _, hthrow, -⟩ := yields_bind_iff.mp h
        exact absurd hthrow not_yields_throw
    · obtain ⟨_, _, hthrow, -⟩ := yields_bind_iff.mp h
      exact absurd hthrow not_yields_throw
  · rintro ⟨content, rendered, st₁, hread, hrendered, hlog, hwrite, rfl⟩
    refine ⟨st, st, ⟨rfl, rfl⟩, ?_⟩
    simp only [hread, hrendered, pure_bind, yields_bind_iff]
    exact ⟨(), st₁, hlog, (), st', hwrite, yields_pure_iff.mpr ⟨rfl, rfl⟩⟩

/-- A page that was made is that of its source, which could be read. -/
theorem makePage_spec (h : p.Sound tree) (hs : p.Listed s) (hy : Yields (p.makePage s) st made st') :
    ∃ content bytes, st.tree.nodeAt (p.sourceRoot.parts ++ s) = some (.file content) ∧
      p.Permits st.tree.access s ∧ p.Makes s content made bytes ∧
      st.tree.HasFile (p.pagePath s) bytes st'.tree := by
  obtain ⟨content, rendered, st₁, hread, hrendered, hlog, hwrite, rfl⟩ :=
    (yields_makePage_iff hs.ne_nil).mp hy
  obtain rfl := yields_modify_iff.mp hlog
  obtain ⟨hnode, hcan⟩ := (read_eq_ok_iff (p := p.sourcePath s) h.root_abs (hs.up_notMem_source h)).mp hread
  have hfile := writePage_spec (q := p.pagePath s) h.output_abs (hs.up_notMem_page h) hwrite
  exact ⟨content, _, hnode, ⟨hcan, hfile.could⟩, ⟨rendered, hrendered, rfl, rfl⟩, hfile⟩

/-- A page can be made of a source that can be read, where there is room for it. -/
theorem exists_makePage (h : p.Sound tree) (hs : p.Listed s) {content bytes : Bytes}
    (hnode : st.tree.nodeAt (p.sourceRoot.parts ++ s) = some (.file content))
    (hpermits : p.Permits st.tree.access s) (hmakes : p.Makes s content made bytes)
    (hfree : Free st.tree.nodeAt (p.outputDir.parts ++ p.pageParts s)) :
    ∃ st', Yields (p.makePage s) st made st' ∧ st.tree.HasFile (p.pagePath s) bytes st'.tree := by
  obtain ⟨rendered, hrendered, rfl, rfl⟩ := hmakes
  have hread : st.tree.read (p.sourcePath s) = .ok content :=
    (read_eq_ok_iff (p := p.sourcePath s) h.root_abs (hs.up_notMem_source h)).mpr ⟨hnode, hpermits.source⟩
  -- The log does not matter for the files.
  let st₁ : Progress := { st with
    events := st.events ++ Document.events ⟨p.flavor, p.headingLevel⟩
      (readSource (s.getLastD []) content).1 rendered }
  obtain ⟨st', hwrite, hfile⟩ : ∃ st', Yields (Build.writePage _ rendered.markdown) st₁ () st' ∧ _ :=
    exists_writePage (q := p.pagePath s) rendered.markdown h.output_abs (hs.up_notMem_page h)
      (by simp [Plan.pagePath, Plan.pageParts]) hfree hpermits.page
  refine ⟨st', (yields_makePage_iff hs.ne_nil).mpr ⟨content, rendered, st₁, hread, hrendered, ?_, hwrite,
    rfl⟩, hfile⟩
  exact yields_modify_iff.mpr rfl

end Pages

/-! ### All pages -/

/-- Work on sources, one after another: each is read where it stands, and its page is written where the
path is free. The last list holds what is written. -/
inductive Plan.Builds (p : Plan) : (List RawText → Option Node) → List (List RawText) →
    List (Page × List Text) → List (List RawText × Bytes) → Prop
  | nil (v : List RawText → Option Node) : p.Builds v [] [] []
  | cons {v : List RawText → Option Node} {s : List RawText} {ss : List (List RawText)} {content bytes : Bytes}
    {made : Page × List Text} {mades : List (Page × List Text)} {ws : List (List RawText × Bytes)} :
    v (p.sourceRoot.parts ++ s) = some (.file content) → p.Makes s content made bytes →
    Free v (p.outputDir.parts ++ p.pageParts s) →
    p.Builds (withFile v (p.outputDir.parts ++ p.pageParts s) bytes) ss mades ws →
    p.Builds v (s :: ss) (made :: mades) ((p.outputDir.parts ++ p.pageParts s, bytes) :: ws)

section Builds

variable {p : Plan} {tree : FileTree} {st st' : Progress} {ss : List (List RawText)}
  {mades : List (Page × List Text)}

/-- Pages that were made were made one after another. -/
theorem makePages_spec (h : p.Sound tree) (hss : ∀ s ∈ ss, p.Listed s)
    (hy : Yields (ss.mapM p.makePage) st mades st') :
    ∃ ws, p.Builds st.tree.nodeAt ss mades ws ∧ (∀ s ∈ ss, p.Permits st.tree.access s) ∧
      Wrote st.tree ws st'.tree := by
  induction ss generalizing st mades with
  | nil =>
    rw [List.mapM_nil] at hy
    obtain ⟨rfl, rfl⟩ := yields_pure_iff.mp hy
    exact ⟨[], .nil _, by simp, .nil _⟩
  | cons s ss ih =>
    rw [List.mapM_cons] at hy
    obtain ⟨made, st₁, hpage, hy⟩ := yields_bind_iff.mp hy
    obtain ⟨others, st₂, hpages, hy⟩ := yields_bind_iff.mp hy
    obtain ⟨rfl, rfl⟩ := yields_pure_iff.mp hy
    obtain ⟨content, bytes, hnode, hpermits, hmakes, hfile⟩ :=
      makePage_spec h (hss s List.mem_cons_self) hpage
    obtain ⟨ws, hbuilds, hothers, hwrote⟩ :=
      ih (fun s' hs' => hss s' (List.mem_cons_of_mem s hs')) hpages
    rw [hfile.nodes] at hbuilds
    rw [hfile.access] at hothers
    exact ⟨_, .cons hnode hmakes hfile.free hbuilds, List.forall_mem_cons.mpr ⟨hpermits, hothers⟩,
      .cons hfile hwrote⟩

/-- Pages can be made one after another where their turns allow it. -/
theorem exists_makePages (h : p.Sound tree) (hss : ∀ s ∈ ss, p.Listed s)
    {v : List RawText → Option Node} {ws : List (List RawText × Bytes)} (hb : p.Builds v ss mades ws)
    (hv : st.tree.nodeAt = v) (hpermits : ∀ s ∈ ss, p.Permits st.tree.access s) :
    ∃ st', Yields (ss.mapM p.makePage) st mades st' ∧ Wrote st.tree ws st'.tree := by
  induction hb generalizing st with
  | nil v =>
    rw [List.mapM_nil]
    exact ⟨st, yields_pure_iff.mpr ⟨rfl, rfl⟩, .nil _⟩
  | @cons v s ss content bytes made mades ws hnode hmakes hfree _ ih =>
    subst hv
    obtain ⟨hfirst, hothers⟩ := List.forall_mem_cons.mp hpermits
    obtain ⟨st₁, hpage, hfile⟩ :=
      exists_makePage h (hss s List.mem_cons_self) hnode hfirst hmakes hfree
    rw [← hfile.access] at hothers
    obtain ⟨st₂, hpages, hwrote⟩ :=
      ih (fun s' hs' => hss s' (List.mem_cons_of_mem s hs')) hfile.nodes hothers
    refine ⟨st₂, ?_, .cons hfile hwrote⟩
    rw [List.mapM_cons]
    exact yields_bind_iff.mpr ⟨made, st₁, hpage, yields_bind_iff.mpr ⟨mades, st₂, hpages,
      yields_pure_iff.mpr ⟨rfl, rfl⟩⟩⟩

end Builds

namespace Plan.Builds

variable {p : Plan} {v : List RawText → Option Node} {ss : List (List RawText)}
  {mades : List (Page × List Text)} {ws : List (List RawText × Bytes)}

theorem writable (h : p.Builds v ss mades ws) : Writable v ws := by
  induction h with
  | nil v => exact .nil v
  | cons _ _ hfree _ ih => exact .cons hfree ih

/-- One page is written for every source, where its page goes. -/
theorem paths (h : p.Builds v ss mades ws) :
    ws.map Prod.fst = ss.map fun s => p.outputDir.parts ++ p.pageParts s := by
  induction h with
  | nil v => rfl
  | cons _ _ _ _ ih => rw [List.map_cons, List.map_cons, ih]

theorem sources (h : p.Builds v ss mades ws) : mades.map (·.1.source) = ss.map (⟨[], ·⟩) := by
  induction h with
  | nil v => rfl
  | cons _ hmakes _ _ ih =>
    obtain ⟨rendered, -, rfl, -⟩ := hmakes
    rw [List.map_cons, List.map_cons, ih]
    rfl

theorem targets (h : p.Builds v ss mades ws) :
    mades.map (·.1.target) = ss.map fun s => ⟨[], p.pageParts s⟩ := by
  induction h with
  | nil v => rfl
  | cons _ hmakes _ _ ih =>
    obtain ⟨rendered, -, rfl, -⟩ := hmakes
    rw [List.map_cons, List.map_cons, ih]
    rfl

theorem exists_source (h : p.Builds v ss mades ws) {w : List RawText × Bytes} (hw : w ∈ ws) :
    ∃ s ∈ ss, w.1 = p.outputDir.parts ++ p.pageParts s := by
  have hmem := List.mem_map_of_mem (f := Prod.fst) hw
  rw [h.paths] at hmem
  obtain ⟨s, hs, heq⟩ := List.mem_map.mp hmem
  exact ⟨s, hs, heq.symm⟩

/-- The same pages come of every tree with the same sources that they can be written to. -/
theorem replay (h : p.Builds v ss mades ws) {v' : List RawText → Option Node} (hw : Writable v' ws)
    (hv : ∀ s ∈ ss, v' (p.sourceRoot.parts ++ s) = v (p.sourceRoot.parts ++ s)) :
    p.Builds v' ss mades ws := by
  induction h generalizing v' with
  | nil v => exact .nil v'
  | @cons v s ss content bytes made mades ws hnode hmakes _ _ ih =>
    cases hw with
    | cons hfree hrest =>
      refine .cons ((hv s List.mem_cons_self).trans hnode) hmakes hfree (ih hrest ?_)
      intro s' hs'
      unfold withFile
      rw [hv s' (List.mem_cons_of_mem s hs')]

end Plan.Builds

/-! ### The whole site -/

def Plan.site (p : Plan) (mades : List (Page × List Text)) : Finished :=
  ⟨p, mades.map (·.1), mades.flatMap (·.2)⟩

def Plan.withIndex (p : Plan) (mades : List (Page × List Text)) (ws : List (List RawText × Bytes)) :
    List (List RawText × Bytes) :=
  ws ++ [(p.indexPath.parts, Utf8.encode ((index (p.site mades).pages).toText?.getD []))]

/-- Where a site is written: the index, and one file for each page. -/
def Plan.written (p : Plan) (site : Finished) : List Path :=
  p.indexPath :: site.pages.map fun page => p.outputDir ++ page.target

namespace Plan.Builds

variable {p : Plan} {v : List RawText → Option Node} {ss : List (List RawText)}
  {mades : List (Page × List Text)} {ws : List (List RawText × Bytes)}

/-- A site is written to the index and to the pages of its sources. -/
theorem written_eq (h : p.Builds v ss mades ws) :
    p.written (p.site mades) =
      ([RawText.ofText indexFile] :: ss.map p.pageParts).map fun parts =>
        ⟨p.outputDir.root, p.outputDir.parts ++ parts⟩ := by
  have htargets : mades.map (fun made => p.outputDir ++ made.1.target) =
      (mades.map (·.1.target)).map (p.outputDir ++ ·) := List.map_map.symm
  rw [Plan.written, Plan.site, List.map_map, List.map_cons, List.map_map]
  refine congrArg _ (htargets.trans ?_)
  rw [h.targets, List.map_map]
  rfl

theorem paths_withIndex (h : p.Builds v ss mades ws) :
    (p.withIndex mades ws).map Prod.fst =
      (ss.map p.pageParts ++ [[RawText.ofText indexFile]]).map (p.outputDir.parts ++ ·) := by
  rw [Plan.withIndex, List.map_append, h.paths, List.map_append, List.map_map]
  rfl

/-- The written files are those that the work on the site writes. -/
theorem mem_written_iff (h : p.Builds v ss mades ws) {file : Path} :
    file ∈ p.written (p.site mades) ↔
      ∃ w ∈ p.withIndex mades ws, file = ⟨p.outputDir.root, w.1⟩ := by
  have hpaths : (∃ w ∈ p.withIndex mades ws, file = ⟨p.outputDir.root, w.1⟩) ↔
      ∃ q ∈ (p.withIndex mades ws).map Prod.fst, file = ⟨p.outputDir.root, q⟩ := by simp
  rw [hpaths, h.paths_withIndex, h.written_eq]
  simp [eq_comm, or_comm]

end Plan.Builds

/-- A page is listed in an index that can be encoded when the names on its path can be. -/
theorem encodable_toRaw_iff {s : List RawText} :
    RawText.Encodable (Path.toRaw ⟨[], s⟩) ↔ ∀ name ∈ s, RawText.Encodable name := by
  unfold Path.toRaw
  by_cases hs : s = []
  · simp [hs, RawText.Encodable, RawChar.isStray]
  · simp only [hs, and_false, if_false]
    exact RawText.encodable_joined_iff

/-- The page of a source has no other names than the source, but for the ending. -/
theorem encodable_pageParts {p : Plan} {s : List RawText} (h : ∀ name ∈ s, RawText.Encodable name) :
    ∀ name ∈ p.pageParts s, RawText.Encodable name := by
  have hlast : RawText.Encodable (s.getLastD []) := by
    cases s with
    | nil => simp [RawText.Encodable]
    | cons a s =>
      rw [List.getLastD_eq_getLast?, List.getLast?_eq_some_getLast (List.cons_ne_nil a s)]
      exact h _ (List.getLast_mem _)
  intro name hname
  rcases List.mem_append.mp hname with hdir | hpage
  · exact h name (List.dropLast_subset s hdir)
  · rw [List.mem_singleton.mp hpage, RawText.encodable_append]
    exact ⟨fun c hc => hlast c (List.mem_of_mem_take hc), RawText.encodable_ofText _⟩

/-- The index can be encoded exactly if all names in it can. -/
theorem encodable_index_iff {pages : List Page} :
    RawText.Encodable (index pages) ↔ ∀ page ∈ pages,
      RawText.Encodable page.source.toRaw ∧ RawText.Encodable page.target.toRaw := by
  rw [index, RawText.encodable_append, and_iff_right (RawText.encodable_ofText _)]
  induction pages with
  | nil => simp [RawText.Encodable]
  | cons page pages ih =>
    rw [List.flatMap_cons, RawText.encodable_append, ih, List.forall_mem_cons]
    refine and_congr_left fun _ => ?_
    simp [indexLine, RawText.encodable_ofText]

/-- The index of some sources can be encoded exactly if their names can. -/
theorem Plan.Builds.index_encodable_iff {p : Plan} {v : List RawText → Option Node}
    {ss : List (List RawText)} {mades : List (Page × List Text)} {ws : List (List RawText × Bytes)}
    (h : p.Builds v ss mades ws) :
    (index (p.site mades).pages).toText? ≠ none ↔ ∀ s ∈ ss, ∀ name ∈ s, RawText.Encodable name := by
  rw [RawText.toText?_ne_none_iff, encodable_index_iff, Plan.site, List.forall_mem_map]
  induction h with
  | nil v => simp
  | cons _ hmakes _ _ ih =>
    obtain ⟨rendered, -, rfl, -⟩ := hmakes
    rw [List.forall_mem_cons, List.forall_mem_cons, ih]
    refine and_congr_left fun _ => ?_
    simp only [Plan.report, encodable_toRaw_iff]
    exact ⟨fun hboth => hboth.1, fun hs => ⟨hs, encodable_pageParts hs⟩⟩

/-- Work on a whole site: there are sources, their pages are made, and the index can be written. -/
structure Plan.Generates (p : Plan) (rights : List RawText → Rights) (v : List RawText → Option Node)
    (ss : List (List RawText)) (mades : List (Page × List Text)) (ws : List (List RawText × Bytes)) :
    Prop where
  some_source : ss ≠ []
  builds : p.Builds v ss mades ws
  permits : ∀ s ∈ ss, p.Permits rights s
  index_free : Free (writeAll v ws) p.indexPath.parts
  index_writable : CanWrite rights p.indexPath
  index_encodable : (index (p.site mades).pages).toText? ≠ none

/-- Making a site in one tree left the other. -/
structure Plan.Produces (p : Plan) (before : FileTree) (mades : List (Page × List Text))
    (ws : List (List RawText × Bytes)) (after : FileTree) : Prop where
  generates : p.Generates before.access before.nodeAt (p.sources before) mades ws
  wrote : Wrote before (p.withIndex mades ws) after
  distinct : after.DistinctNames

section Generates

variable {p : Plan} {rights : List RawText → Rights} {v : List RawText → Option Node}
  {ss : List (List RawText)} {mades : List (Page × List Text)} {ws : List (List RawText × Bytes)}

theorem Plan.Generates.writable (h : p.Generates rights v ss mades ws) :
    Writable v (p.withIndex mades ws) :=
  Writable.concat_iff.mpr ⟨h.builds.writable, h.index_free⟩

/-- Everything that a site writes may be written. -/
theorem Plan.Generates.canWrite (h : p.Generates rights v ss mades ws) {w : List RawText × Bytes}
    (hw : w ∈ p.withIndex mades ws) : CanWrite rights ⟨p.outputDir.root, w.1⟩ := by
  rcases List.mem_append.mp hw with hpage | hindex
  · obtain ⟨s, hs, heq⟩ := h.builds.exists_source hpage
    rw [heq]
    exact (h.permits s hs).page
  · rw [List.mem_singleton.mp hindex]
    exact h.index_writable

end Generates

namespace Plan.Produces

variable {p : Plan} {before after : FileTree} {mades : List (Page × List Text)}
  {ws : List (List RawText × Bytes)}

theorem exists_write (h : p.Produces before mades ws after) {s : List RawText} (hs : s ∈ p.sources before) :
    ∃ w ∈ p.withIndex mades ws, w.1 = p.outputDir.parts ++ p.pageParts s := by
  have hmem : p.outputDir.parts ++ p.pageParts s ∈ (p.withIndex mades ws).map Prod.fst := by
    rw [h.generates.builds.paths_withIndex]
    exact List.mem_map_of_mem (List.mem_append_left _ (List.mem_map_of_mem hs))
  exact List.mem_map.mp hmem

/-- Behind a site, each source has a page. -/
theorem exists_page (h : p.Produces before mades ws after) {s : List RawText} (hs : s ∈ p.sources before) :
    ∃ b, after.nodeAt (p.outputDir.parts ++ p.pageParts s) = some (.file b) := by
  obtain ⟨w, hw, heq⟩ := h.exists_write hs
  rw [h.wrote.nodes, ← heq]
  exact h.generates.writable.exists_file hw

theorem exists_index (h : p.Produces before mades ws after) :
    ∃ b, after.nodeAt p.indexPath.parts = some (.file b) := by
  rw [h.wrote.nodes]
  exact h.generates.writable.exists_file (List.mem_append_right _ (List.mem_singleton_self _))

end Plan.Produces

section Generate

variable {p : Plan} {st st' : Progress}

theorem listed_of_mem_sources {tree : FileTree} (h : p.Sound tree) (hd : tree.DistinctNames) :
    ∀ s ∈ p.sources tree, p.Listed s :=
  fun _ hs => ((mem_sources_iff h hd).mp hs).1.listed

theorem up_notMem_indexPath {tree : FileTree} (h : p.Sound tree) : Path.up ∉ p.indexPath.parts := by
  change Path.up ∉ p.outputDir.parts ++ [RawText.ofText indexFile]
  have hname : Path.up ≠ RawText.ofText indexFile := by decide
  simp [h.output_ups, hname]

/-- The index is written as a page, if it can be encoded. -/
theorem yields_writeIndex_iff {text : RawText} :
    Yields (p.writeIndex text) st () st' ↔
      Yields (Build.writePage p.indexPath (text.toText?.getD [])) st () st' ∧ text.toText? ≠ none := by
  unfold Plan.writeIndex
  constructor
  · intro h
    obtain ⟨_, st₁, hwrite, h⟩ := yields_bind_iff.mp h
    split at h
    · exact absurd h not_yields_throw
    · rename_i hsome
      obtain ⟨-, rfl⟩ := yields_pure_iff.mp h
      exact ⟨hwrite, hsome⟩
  · rintro ⟨hwrite, hsome⟩
    refine yields_bind_iff.mpr ⟨(), st', hwrite, ?_⟩
    rw [if_neg hsome]
    exact yields_pure_iff.mpr ⟨rfl, rfl⟩

/-- Making a site is making its pages, and then the index. -/
theorem yields_generate_iff {site : Finished} :
    Yields p.generate st site st' ↔
      p.sources st.tree ≠ [] ∧ ∃ mades st₁, Yields ((p.sources st.tree).mapM p.makePage) st mades st₁ ∧
        Yields (p.writeIndex (index (p.site mades).pages)) st₁ () st' ∧ p.site mades = site := by
  unfold Plan.generate
  simp only [yields_bind_iff, yields_get_iff]
  constructor
  · rintro ⟨_, _, ⟨rfl, rfl⟩, h⟩
    split at h
    · exact absurd h not_yields_throw
    · rename_i hne
      obtain ⟨mades, st₁, hpages, h⟩ := yields_bind_iff.mp h
      obtain ⟨_, st₂, hindex, h⟩ := yields_bind_iff.mp h
      obtain ⟨rfl, rfl⟩ := yields_pure_iff.mp h
      exact ⟨hne, mades, st₁, hpages, hindex, rfl⟩
  · rintro ⟨hne, mades, st₁, hpages, hindex, rfl⟩
    refine ⟨st, st, ⟨rfl, rfl⟩, ?_⟩
    split
    · exact absurd ‹_› hne
    · exact yields_bind_iff.mpr ⟨mades, st₁, hpages, yields_bind_iff.mpr ⟨(), st', hindex,
        yields_pure_iff.mpr ⟨rfl, rfl⟩⟩⟩

/-- **What a generated site leaves behind.** The pages were made from the sources in order, and the tree
differs by what was written for them and for the index. -/
theorem generate_spec (h : p.Sound st.tree) (hd : st.tree.DistinctNames) {site : Finished}
    (hy : Yields p.generate st site st') :
    ∃ mades ws, p.Produces st.tree mades ws st'.tree ∧ site = p.site mades := by
  obtain ⟨hne, mades, st₁, hpages, hindex, rfl⟩ := yields_generate_iff.mp hy
  obtain ⟨ws, hbuilds, hpermits, hwrote⟩ := makePages_spec h (listed_of_mem_sources h hd) hpages
  obtain ⟨hwrite, hencodable⟩ := yields_writeIndex_iff.mp hindex
  have hfile := writePage_spec (q := p.indexPath) h.output_abs (up_notMem_indexPath h) hwrite
  have hfree := hfile.free
  have hcan := hfile.could
  rw [hwrote.nodes] at hfree
  rw [hwrote.access] at hcan
  have hall := hwrote.concat hfile
  exact ⟨mades, ws, ⟨⟨hne, hbuilds, hpermits, hfree, hcan, hencodable⟩, hall, hall.distinct hd⟩, rfl⟩

/-- A site can be made where its pages and its index can. -/
theorem exists_generate (h : p.Sound st.tree) (hd : st.tree.DistinctNames)
    {mades : List (Page × List Text)} {ws : List (List RawText × Bytes)}
    (hg : p.Generates st.tree.access st.tree.nodeAt (p.sources st.tree) mades ws) :
    ∃ st', Yields p.generate st (p.site mades) st' ∧ p.Produces st.tree mades ws st'.tree := by
  obtain ⟨st₁, hpages, hwrote⟩ :=
    exists_makePages h (listed_of_mem_sources h hd) hg.builds rfl hg.permits
  have hfree := hg.index_free
  have hcan := hg.index_writable
  rw [← hwrote.nodes] at hfree
  rw [← hwrote.access] at hcan
  obtain ⟨st', hindex, hfile⟩ := exists_writePage (q := p.indexPath)
    ((index (p.site mades).pages).toText?.getD []) h.output_abs (up_notMem_indexPath h)
    (by simp [Plan.indexPath, Path.child]) hfree hcan
  have hall := hwrote.concat hfile
  refine ⟨st', yields_generate_iff.mpr ⟨hg.some_source, mades, st₁, hpages, ?_, rfl⟩, hg, hall,
    hall.distinct hd⟩
  exact yields_writeIndex_iff.mpr ⟨hindex, hg.index_encodable⟩

end Generate

end DocMark.Site
