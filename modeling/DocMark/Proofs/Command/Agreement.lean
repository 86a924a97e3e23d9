import DocMark.Proofs.Command.Answers
import DocMark.Proofs.Site.Pages

/-!
Both commands on one file.

Converting a file and generating a site from a directory that holds nothing else render the same bytes, but
they read them in two ways: a conversion puts a replacement character into each gap of the text, and a site
drops the gaps. The two texts are the same exactly where the bytes have no gap
(`Utf8.decodeReplacing_eq_decodeDropping_iff`), and then so are the two pages (`convert_generate_agree`).
-/

namespace DocMark

/-! ### Two ways to read bytes -/

namespace Utf8

theorem decode?_eq_some_iff {bs : Bytes} {t : Text} : decode? bs = some t ↔ decode bs = t.map some := by
  unfold decode?
  generalize decode bs = l
  induction l generalizing t with
  | nil => cases t <;> simp
  | cons o l ih =>
    rw [List.mapM_cons]
    cases o with
    | none => cases t <;> simp
    | some c =>
      cases t with
      | nil => simp [Option.bind_eq_some_iff]
      | cons d t => simp [Option.bind_eq_some_iff, ih, and_comm]

theorem decodeDropping_eq {bs : Bytes} {t : Text} (h : decode? bs = some t) : decodeDropping bs = t := by
  rw [decodeDropping, decode?_eq_some_iff.mp h, List.filterMap_map]
  exact List.filterMap_some

theorem decodeReplacing_eq {bs : Bytes} {t : Text} (h : decode? bs = some t) : decodeReplacing bs = t := by
  rw [decodeReplacing, decode?_eq_some_iff.mp h, List.map_map]
  exact List.map_id t

/-- Gaps make a difference: there is a character for each of them in one text, and none in the other. -/
theorem decodeReplacing_eq_decodeDropping_iff (bs : Bytes) :
    decodeReplacing bs = decodeDropping bs ↔ ∃ t, decode? bs = some t := by
  constructor
  · intro h
    refine ⟨decodeDropping bs, decode?_eq_some_iff.mpr ?_⟩
    have hlength : ((decode bs).filterMap id).length = (decode bs).length := by
      rw [← List.length_map (fun o : Option Char => o.getD (Char.ofNat 0xFFFD))]
      exact congrArg List.length h.symm
    rw [decodeDropping, List.map_filterMap_some_eq_filter_map_isSome, List.map_id]
    exact (List.filter_eq_self.mpr (List.filterMap_length_eq_length.mp hlength)).symm
  · rintro ⟨t, ht⟩
    rw [decodeReplacing_eq ht, decodeDropping_eq ht]

end Utf8

namespace Site

open FileTree

/-- A site is made from the text without its gaps. -/
theorem readSource_fst (name : RawText) (content : Bytes) :
    (readSource name content).1 = Utf8.decodeDropping content := by
  unfold readSource
  cases h : Utf8.decode? content with
  | none => rfl
  | some t => exact (Utf8.decodeDropping_eq h).symm

/-! ### A directory with one file -/

section Single

variable {p : Plan} {tree : FileTree} {name : RawText} {content : Bytes} {rights rightsDir : Rights}

/-- The only file of a directory with one entry is that entry. -/
theorem nodeAt_single {q : List RawText} {b : Bytes}
    (h : (FileTree.dir [(name, .file content rights)] rightsDir).nodeAt q = some (.file b)) :
    q = [name] ∧ b = content := by
  cases q with
  | nil => cases h
  | cons x q =>
    rw [nodeAt_dir_cons, lookup_cons_eq_ite] at h
    split at h
    · rename_i hx
      cases q with
      | nil =>
        cases h
        exact ⟨by rw [hx], rfl⟩
      | cons y q => cases h
    · cases h

/-- A directory with one file has at most one source. -/
theorem sources_eq_of_single (h : p.Sound tree) (hd : tree.DistinctNames)
    (hdir : tree.find p.sourceRoot.parts = .ok (.dir [(name, .file content rights)] rightsDir))
    (hsome : p.sources tree ≠ []) : p.sources tree = [[name]] := by
  have hall : ∀ q ∈ p.sources tree, q = [name] := by
    intro q hq
    obtain ⟨-, b, hnode⟩ := (mem_sources_iff h hd).mp hq
    rw [nodeAt_append_of_find hdir] at hnode
    exact (nodeAt_single hnode).1
  have hsorted := pairwise_sources h hd
  cases hsources : p.sources tree with
  | nil => exact absurd hsources hsome
  | cons q qs =>
    rw [hsources] at hall hsorted
    obtain ⟨hq, hqs⟩ := List.forall_mem_cons.mp hall
    cases qs with
    | nil => rw [hq]
    | cons q' qs =>
      -- Two sources would be one and the same, but no source is listed twice.
      have hlt := (List.pairwise_cons.mp hsorted).1 q' List.mem_cons_self
      rw [hq, hqs q' List.mem_cons_self] at hlt
      exact absurd hlt (lt_irrefl _)

/-- The page of an only source and the index have room beside each other. -/
theorem fits_of_single (hsources : p.sources tree = [[name]])
    (hway : ∀ q, q <+: p.outputDir.parts → ∀ b, tree.nodeAt q ≠ some (.file b))
    (hpermits : p.Permits tree.access [name]) (hindex : CanWrite tree.access p.indexPath)
    (hencodable : RawText.Encodable name) (hname : name ≠ RawText.ofText ("_index.".toList ++ p.extension)) :
    p.Fits tree where
  way_clear := hway
  permits := by
    rw [hsources]
    exact List.forall_mem_singleton.mpr hpermits
  index_writable := hindex
  names_encodable := by
    rw [hsources]
    exact List.forall_mem_singleton.mpr (List.forall_mem_singleton.mpr hencodable)
  index_apart := by
    rw [hsources, List.mem_singleton]
    intro heq
    exact hname (List.head_eq_of_cons_eq heq).symm
  page_not_dir := by
    rw [hsources]
    simp [pageParts_ne_nil]
  index_not_dir := by
    rw [hsources]
    simp

/-- The page of the only source holds what the source is rendered to, unless the index takes its place. -/
theorem look_page_of_single (h : p.Sound tree) (hd : tree.DistinctNames) {mades : List (Page × List Text)}
    {ws : List (List RawText × Bytes)} {after : FileTree} (hm : p.Produces tree mades ws after)
    (hdir : tree.find p.sourceRoot.parts = .ok (.dir [(name, .file content rights)] rightsDir))
    (hname : name ≠ RawText.ofText ("_index.".toList ++ p.extension)) :
    ∃ rendered, Document.render ⟨p.flavor, p.headingLevel⟩ (Utf8.decodeDropping content) = .ok rendered ∧
      ∃ r, after.look (p.outputDir ++ ⟨[], p.pageParts [name]⟩) =
        .ok (.file (Utf8.encode rendered.markdown) r) := by
  have hsources := sources_eq_of_single h hd hdir hm.generates.some_source
  have hlisted : p.Listed [name] := by
    apply listed_of_mem_sources h hd
    rw [hsources]
    exact List.mem_singleton_self _
  have hbuilds := hm.generates.builds
  rw [hsources] at hbuilds
  cases hbuilds with
  | @cons _ _ _ content' bytes made _ ws hnode hmakes _ hrest =>
    obtain ⟨rendered, hrendered, -, rfl⟩ := hmakes
    rw [nodeAt_append_of_find hdir] at hnode
    obtain ⟨-, rfl⟩ := nodeAt_single hnode
    rw [readSource_fst] at hrendered
    refine ⟨rendered, hrendered, ?_⟩
    have hnodup : ([RawText.ofText indexFile] :: (p.sources tree).map p.pageParts).Nodup := by
      rw [hsources, List.map_singleton, List.nodup_cons, List.mem_singleton]
      refine ⟨fun heq => hname ?_, List.nodup_singleton _⟩
      simpa using (pageParts_eq_index_iff hlisted).mp heq.symm
    rw [Path.append_relative]
    exact hm.look_written h hnodup (List.mem_append_left _ List.mem_cons_self) (hlisted.up_notMem_page h)

end Single

end Site

namespace Command

open Session

/-! ### Runs of the commands -/

def ConvertRequest.Finds (r : ConvertRequest) (s : Session) (content : Bytes) : Prop :=
  ∃ path, (Path.ofText r.file).expandHome s.home s.users = .ok path ∧ s.files.read path s.cwd = .ok content

def GenerateRequest.Plans (r : GenerateRequest) (c : Context) (s : Session) (p : Site.Plan) : Prop :=
  ∃ source destination, (Path.ofText r.sourceDir).expandHome s.home s.users = .ok source ∧
    (c.outputDir r.targetDir).expandHome s.home s.users = .ok destination ∧
    Site.Plan.ofRequest s.files s.cwd (r.site c source destination) = .ok p

section Runs

variable {sink : Sink} {s : Session} {c : Context} {r : ConvertRequest} {content : Bytes} {flavor : Flavor}

/-- A file that was saved is seen with the bytes that were saved. -/
theorem look_of_save {cwd target : Path} {bytes : Bytes} {t t' : FileTree}
    (h : Yields (FileTree.save cwd target bytes) t () t') :
    ∃ rights, t'.look target cwd = .ok (.file bytes rights) := by
  obtain ⟨_, t₁, -, hwrite⟩ := yields_bind_iff.mp h
  exact FileTree.look_of_write (FileTree.yields_writeFile_iff.mp hwrite)

/-- Without a place to write to, a conversion answers with what the file is rendered to. -/
theorem convert_shows (h : IsReady sink s) (hfile : r.Finds s content)
    (hflavor : Flavor.ofName (c.flavor r.flavor) = .ok flavor) (hnone : ∀ output ∈ r.output, output = []) :
    ∃ rendered, Document.render ⟨flavor, c.headingLevel r.headingLevel⟩ (Utf8.decodeReplacing content) =
        .ok rendered ∧
      ∃ (e : Envelope) (s' : Session), e.data.get? "markdown".toList = some (.str rendered.markdown) ∧
        Yields (convert c r) s () s' ∧ s'.stdout = s.stdout ++ [e.line] := by
  obtain ⟨path, hpath, hread⟩ := hfile
  obtain ⟨s₁, hrun, ⟨printed, rfl, -⟩, hcommand⟩ := exists_command h "convert".toList (conversion c r)
  obtain ⟨rendered, s₂, hrender, hlogs, heq⟩ := run_conversion hrun hpath hread hflavor
  obtain ⟨e, -, hdata, hyields⟩ := exists_answerConversion (hrun.of_logs hlogs)
    (yields_deliver hnone rendered.markdown s₂) (Prints.refl s₂) s.clock
  obtain ⟨s', hends, -, hprints⟩ := hcommand (heq.trans hyields) (by simp)
    (hlogs.prints.trans (prints_emitSuccess s₂ e))
  exact ⟨rendered, hrender, e, s', hdata _ rfl, hends, hprints.stdout⟩

/-- With a place to write to, a conversion succeeds if it can write there what the file is rendered to. -/
theorem convert_saves (h : IsReady sink s) (hfile : r.Finds s content)
    (hflavor : Flavor.ofName (c.flavor r.flavor) = .ok flavor) {output : Text}
    (hgiven : r.output = some output) (hne : output ≠ []) {target : Path}
    (htarget : (Path.ofText output).expandHome s.home s.users = .ok target) :
    ∃ rendered, Document.render ⟨flavor, c.headingLevel r.headingLevel⟩ (Utf8.decodeReplacing content) =
        .ok rendered ∧
      (∀ s', Yields (convert c r) s () s' →
        ∃ rights, s'.files.look target s.cwd = .ok (.file (Utf8.encode rendered.markdown) rights)) ∧
      ((∃ tree, Yields (FileTree.save s.cwd target (Utf8.encode rendered.markdown)) s.files () tree) →
        ∃ s', Yields (convert c r) s () s') := by
  obtain ⟨path, hpath, hread⟩ := hfile
  obtain ⟨s₁, hrun, ⟨printed, rfl, -⟩, hcommand⟩ := exists_command h "convert".toList (conversion c r)
  obtain ⟨rendered, s₂, hrender, hlogs, heq⟩ := run_conversion hrun hpath hread hflavor
  refine ⟨rendered, hrender, ?_⟩
  have htarget' : (Path.ofText output).expandHome s₂.home s₂.users = .ok target := by
    rw [hlogs.sameRun.home, hlogs.sameRun.users]
    exact htarget
  have hcases := answerConversion_cases (hrun.of_logs hlogs) hgiven hne htarget' path s.clock rendered
  rw [hlogs.sameRun.cwd, hlogs.files] at hcases
  rcases hcases with ⟨e, s₃, -, hsave, hyields, hprints⟩ | ⟨e, tree, hfails, hrefused, hcrash⟩
  · obtain ⟨s', hends, hfiles, -⟩ := hcommand (heq.trans hyields) (by simp) (hlogs.prints.trans hprints)
    refine ⟨fun s'' hy => ?_, fun _ => ⟨s', hends⟩⟩
    cases hends.symm.trans hy
    rw [hfiles]
    exact look_of_save hsave
  · have hnever : ∀ s', ¬ Yields (convert c r) s () s' := by
      intro s'' hy
      by_cases hcause : e.cause = .nullByte
      · obtain ⟨_, _, s₃, hbreaks, ⟨⟨_, rfl⟩, rfl⟩, hprints⟩ := hcrash hcause
        obtain ⟨s', hends, -⟩ := hcommand (heq.trans hbreaks) (by simp) (hlogs.prints.trans hprints)
        cases hends.symm.trans hy
      · obtain ⟨_, _, s₃, hbreaks, ⟨rfl, _, -, rfl⟩, hprints⟩ := hrefused hcause
        obtain ⟨s', hends, -⟩ := hcommand (heq.trans hbreaks) (by simp) (hlogs.prints.trans hprints)
        cases hends.symm.trans hy
    refine ⟨fun s'' hy => absurd hy (hnever s''), ?_⟩
    rintro ⟨tree', hyields⟩
    cases hfails.symm.trans hyields

/-- A site is generated exactly if its plan can be carried out, and leaves the files that this leaves. -/
theorem generate_builds (h : IsReady sink s) {g : GenerateRequest} {p : Site.Plan} (hplan : g.Plans c s p) :
    (∀ s', Yields (generate c g) s () s' →
        ∃ site progress, Yields p.generate ⟨s.files, []⟩ site progress ∧ s'.files = progress.tree) ∧
      ((∃ site progress, Yields p.generate ⟨s.files, []⟩ site progress) →
        ∃ s', Yields (generate c g) s () s') := by
  obtain ⟨source, destination, hsource, hdestination, hplan⟩ := hplan
  obtain ⟨s₁, hrun, ⟨printed, rfl, -⟩, hcommand⟩ := exists_command h "generate".toList (generation c g)
  rcases hbuilt : p.generate.run.run ⟨s.files, []⟩ with ⟨result, progress⟩
  obtain ⟨s₂, hmade, hfiles, hprints⟩ := exists_makeSite hrun hplan hbuilt
  cases result with
  | ok site =>
    obtain ⟨e, -, s₃, hanswer, hfiles', hprints'⟩ :=
      exists_answerSite (hrun.of_sameRun hprints.toSameRun) s.clock site
    obtain ⟨s', hends, hfiles'', -⟩ := hcommand
      ((run_generation (yields_makeRequested hmade hsource) hdestination).trans hanswer) (by simp)
      (hprints.trans hprints')
    refine ⟨fun s'' hy => ⟨site, progress, hbuilt, ?_⟩, fun _ => ⟨s', hends⟩⟩
    cases hends.symm.trans hy
    rw [hfiles'', hfiles', hfiles]
  | error e =>
    obtain ⟨_, _, s₃, hbreaks, ⟨rfl, _, -, rfl⟩, hprints'⟩ :=
      refusal_generation hrun hdestination (yields_makeRequested hmade hsource) hprints
    obtain ⟨s', hends, -⟩ := hcommand hbreaks (by simp) hprints'
    refine ⟨fun s'' hy => ?_, ?_⟩
    · cases hends.symm.trans hy
    · rintro ⟨site, progress', hyields⟩
      cases hbuilt.symm.trans hyields

/-- **The two commands agree on every text.** A file is asked to be converted, and a site to be generated from
a directory that holds nothing but a file with the same bytes, in the same flavor and at the same level. The
Markdown of the conversion, in its answer or in the file that it writes, is what the bytes are rendered to with
a replacement character in each gap. The page of the site, if the index does not take its place, is what they
are rendered to without the gaps. Where the bytes are those of a text, the two are the same.

The conversion always succeeds if it does not have to write, and else if there is room at an absolute path.
The site can be generated if its page and the index fit into a new directory. -/
theorem convert_generate_agree (h : IsReady sink s) (hd : s.files.DistinctNames) (hfile : r.Finds s content)
    {g : GenerateRequest} {p : Site.Plan} (hplan : g.Plans c s p) {name : RawText} {rights rightsDir : Rights}
    (hdir : s.files.look p.sourceRoot = .ok (.dir [(name, .file content rights)] rightsDir))
    (hflavor : g.flavor = r.flavor) (hlevel : g.headingLevel = r.headingLevel) :
    ∃ shown written : Document.Rendered,
      Document.render ⟨p.flavor, p.headingLevel⟩ (Utf8.decodeReplacing content) = .ok shown ∧
      Document.render ⟨p.flavor, p.headingLevel⟩ (Utf8.decodeDropping content) = .ok written ∧
      ((∃ t, Utf8.decode? content = some t) → shown = written) ∧
      ((∀ output ∈ r.output, output = []) →
        ∃ (e : Envelope) (s' : Session), e.data.get? "markdown".toList = some (.str shown.markdown) ∧
          Yields (convert c r) s () s' ∧ s'.stdout = s.stdout ++ [e.line]) ∧
      (∀ output ∈ r.output, output ≠ [] → ∀ target,
        (Path.ofText output).expandHome s.home s.users = .ok target →
        (∀ s', Yields (convert c r) s () s' →
          ∃ rights, s'.files.look target s.cwd = .ok (.file (Utf8.encode shown.markdown) rights)) ∧
        (target.root ≠ [] → Path.up ∉ target.parts → target.parts ≠ [] →
          FileTree.Free s.files.nodeAt target.parts → FileTree.CanWrite s.files.access target →
          ∃ s', Yields (convert c r) s () s')) ∧
      (name ≠ RawText.ofText ("_index.".toList ++ p.extension) → ∀ s', Yields (generate c g) s () s' →
        ∃ rights, s'.files.look (p.outputDir ++ ⟨[], p.pageParts [name]⟩) =
          .ok (.file (Utf8.encode written.markdown) rights)) ∧
      (p.Fits s.files → s.files.nodeAt p.outputDir.parts = none → p.sources s.files ≠ [] →
        ∃ s', Yields (generate c g) s () s') := by
  have hsound : p.Sound s.files := by
    obtain ⟨_, _, -, -, hp⟩ := hplan
    exact Site.sound_of_ofRequest hp
  obtain ⟨hof, hheading⟩ : Flavor.ofName (c.flavor r.flavor) = .ok p.flavor ∧
      p.headingLevel = c.headingLevel r.headingLevel := by
    obtain ⟨_, _, -, -, hp⟩ := hplan
    obtain ⟨-, -, hoptions, -⟩ := Site.ofRequest_eq_ok hp
    rw [← hflavor, ← hlevel]
    exact hoptions
  have hspecified := Flavor.isSpecified_of_mem_named hsound.flavor
  obtain ⟨shown, hshown⟩ := Document.exists_render hspecified p.headingLevel (Utf8.decodeReplacing content)
  obtain ⟨written, hwritten⟩ := Document.exists_render hspecified p.headingLevel (Utf8.decodeDropping content)
  obtain ⟨hruns, hbuilds⟩ := generate_builds h hplan
  have hstart : p.Sound (Site.Progress.mk s.files []).tree := hsound
  refine ⟨shown, written, hshown, hwritten, fun htext => ?_, fun hnone => ?_,
    fun output hgiven hne target htarget => ?_, fun hname s' hy => ?_, fun hfits hnew hsome => ?_⟩
  · rw [(Utf8.decodeReplacing_eq_decodeDropping_iff content).mpr htext] at hshown
    exact Except.ok.inj (hshown.symm.trans hwritten)
  · obtain ⟨rendered, hrender, e, s', hdata, hy, hout⟩ := convert_shows h hfile hof hnone
    rw [← hheading] at hrender
    cases hrender.symm.trans hshown
    exact ⟨e, s', hdata, hy, hout⟩
  · obtain ⟨rendered, hrender, hreads, hcan⟩ := convert_saves h hfile hof hgiven hne htarget
    rw [← hheading] at hrender
    cases hrender.symm.trans hshown
    refine ⟨hreads, fun hroot hup hparts hfree hwrite => hcan ?_⟩
    exact FileTree.exists_save s.cwd hroot hup hparts hfree hwrite _
  · obtain ⟨site, progress, hsite, htree⟩ := hruns s' hy
    obtain ⟨mades, ws, hm, -⟩ := Site.generate_spec hstart hd hsite
    obtain ⟨hfind, -⟩ := (FileTree.look_eq_ok_iff hsound.root_abs hsound.root_ups).mp hdir
    obtain ⟨rendered, hrender, hpage⟩ := Site.look_page_of_single hsound hd hm hfind hname
    cases hrender.symm.trans hwritten
    rw [htree]
    exact hpage
  · obtain ⟨mades, ws, hg⟩ := hfits.exists_generates hsound hd hnew hsome
    obtain ⟨progress, hsite, -⟩ := Site.exists_generate hstart hd hg
    exact hbuilds ⟨_, progress, hsite⟩

end Runs

/-- A comment with a byte in it that begins no character. -/
def gapBytes : Bytes := Utf8.encode "/** ".toList ++ 255 :: Utf8.encode "*/ x;".toList

/-- A session with nothing but a directory with one file, and with a log. -/
def gapSession : Session where
  files := .dir [("src".toList, .dir [("a.java".toList, .file gapBytes)])]
  cwd := .top
  home := ⟨['/'], ["home".toList]⟩
  reader := Toml.parse
  clock := 1700000000.0
  tokens := Text.ofNat
  log := .live ⟨.info, false, true⟩

def gapPlan : Site.Plan where
  sourceRoot := ⟨['/'], ["src".toList]⟩
  outputDir := ⟨['/'], ["out".toList]⟩
  extension := "java".toList
  flavor := Flavor.javadoc
  headingLevel := 1
  excludes := Site.effectiveExcludes []

def convertGap : ConvertRequest := { file := "src/a.java".toList }

def generateGap : GenerateRequest := { sourceDir := "src".toList, targetDir := some "out".toList }

theorem isReady_gapSession : IsReady ⟨.info, false, true⟩ gapSession := by
  have hclock : gapSession.clock.isNaN = false ∧ gapSession.clock.isInf = false := by decide
  exact ⟨rfl, rfl, hclock.1, hclock.2⟩

theorem distinctNames_gapSession : gapSession.files.DistinctNames := by
  refine .dir (List.nodup_singleton _) (List.forall_mem_singleton.mpr ?_)
  exact .dir (List.nodup_singleton _) (List.forall_mem_singleton.mpr .file)

theorem finds_convertGap : convertGap.Finds gapSession gapBytes :=
  ⟨⟨[], ["src".toList, "a.java".toList]⟩, rfl, rfl⟩

theorem output_convertGap : ∀ output ∈ convertGap.output, output = [] := by
  intro output houtput
  cases houtput

theorem plans_generateGap : generateGap.Plans ⟨{}, none, none⟩ gapSession gapPlan :=
  ⟨⟨[], ["src".toList]⟩, ⟨[], ["out".toList]⟩, rfl, rfl, rfl⟩

theorem sound_gapPlan : gapPlan.Sound gapSession.files := by
  obtain ⟨_, _, -, -, hp⟩ := plans_generateGap
  exact Site.sound_of_ofRequest hp

theorem sources_gapPlan : gapPlan.sources gapSession.files = [[RawText.ofText "a.java".toList]] :=
  Site.sources_eq_of_walk sound_gapPlan rfl (by decide) rfl (List.pairwise_singleton _ _)

theorem fits_gapPlan : gapPlan.Fits gapSession.files := by
  refine Site.fits_of_single sources_gapPlan (fun q hq b hfile => ?_) ⟨by decide, by decide⟩ (by decide)
    (by decide) (by decide)
  rcases List.prefix_cons_iff.mp hq with rfl | ⟨below, rfl, hbelow⟩
  · cases hfile
  · obtain rfl := List.prefix_nil.mp hbelow
    cases hfile

/-- The byte is replaced by a character in the one rendering, and missing from the other. -/
theorem markdown_gap {rendered : Document.Rendered} :
    (Document.render ⟨Flavor.javadoc, 1⟩ (Utf8.decodeReplacing gapBytes) = .ok rendered →
        rendered.markdown = "# Documentation\n\n## `x`\n\n\uFFFD\n".toList) ∧
      (Document.render ⟨Flavor.javadoc, 1⟩ (Utf8.decodeDropping gapBytes) = .ok rendered →
        rendered.markdown = "# Documentation\n\n## `x`\n".toList) := by
  have hmarkdown :
      (Document.render ⟨Flavor.javadoc, 1⟩ (Utf8.decodeReplacing gapBytes)).toOption.map (·.markdown) =
        some "# Documentation\n\n## `x`\n\n\uFFFD\n".toList ∧
      (Document.render ⟨Flavor.javadoc, 1⟩ (Utf8.decodeDropping gapBytes)).toOption.map (·.markdown) =
        some "# Documentation\n\n## `x`\n".toList := by decide +kernel
  constructor
  · intro h
    rw [h] at hmarkdown
    exact Option.some.inj hmarkdown.1
  · intro h
    rw [h] at hmarkdown
    exact Option.some.inj hmarkdown.2

def gapPage : Path := ⟨['/'], ["out".toList, "a.md".toList]⟩

/-- The page has no description, since the byte is dropped and nothing else is in the comment. -/
theorem look_gapPage {s' : Session} (h : Yields (generate ⟨{}, none, none⟩ generateGap) gapSession () s') :
    ∃ rights, s'.files.look gapPage =
      .ok (.file (Utf8.encode "# Documentation\n\n## `x`\n".toList) rights) := by
  obtain ⟨site, progress, hsite, htree⟩ := (generate_builds isReady_gapSession plans_generateGap).1 s' h
  have hsound : gapPlan.Sound (Site.Progress.mk gapSession.files []).tree := sound_gapPlan
  obtain ⟨mades, ws, hm, -⟩ := Site.generate_spec hsound distinctNames_gapSession hsite
  obtain ⟨rendered, hrender, hpage⟩ :=
    Site.look_page_of_single sound_gapPlan distinctNames_gapSession hm rfl (by decide)
  rw [markdown_gap.2 hrender] at hpage
  rw [htree]
  exact hpage

/-- A byte that is no text shows in the answer of a conversion, and not in the page of a site. -/
theorem convert_generate_agree_gap :
    (∃ (e : Envelope) (s' : Session),
        e.data.get? "markdown".toList = some (.str "# Documentation\n\n## `x`\n\n\uFFFD\n".toList) ∧
        Yields (convert ⟨{}, none, none⟩ convertGap) gapSession () s' ∧ s'.stdout = [e.line]) ∧
      ∃ s' rights, Yields (generate ⟨{}, none, none⟩ generateGap) gapSession () s' ∧
        s'.files.look gapPage = .ok (.file (Utf8.encode "# Documentation\n\n## `x`\n".toList) rights) := by
  obtain ⟨shown, written, hshown, hwritten, -, hconvert, -, hlook, hcan⟩ :=
    convert_generate_agree isReady_gapSession distinctNames_gapSession finds_convertGap plans_generateGap
      rfl rfl rfl
  constructor
  · rw [← markdown_gap.1 hshown]
    exact hconvert output_convertGap
  · obtain ⟨s', hy⟩ := hcan fits_gapPlan rfl (by simp [sources_gapPlan])
    obtain ⟨rights, hpage⟩ := hlook (by decide) s' hy
    rw [← markdown_gap.2 hwritten]
    exact ⟨s', rights, hy, hpage⟩

/-- The two commands do not agree on all bytes. -/
theorem convert_generate_differ_gap :
    ∃ (e : Envelope) (s₁ s₂ : Session) (markdown : Text),
      e.data.get? "markdown".toList = some (.str markdown) ∧
      Yields (convert ⟨{}, none, none⟩ convertGap) gapSession () s₁ ∧ s₁.stdout = [e.line] ∧
      Yields (generate ⟨{}, none, none⟩ generateGap) gapSession () s₂ ∧
      ∀ rights, s₂.files.look gapPage ≠ .ok (.file (Utf8.encode markdown) rights) := by
  have hflavor : Flavor.ofName (Context.flavor ⟨{}, none, none⟩ convertGap.flavor) = .ok Flavor.javadoc := rfl
  obtain ⟨shown, hshown, e, s₁, hdata, hconvert, hout⟩ :=
    convert_shows isReady_gapSession finds_convertGap hflavor output_convertGap
  obtain ⟨mades, ws, hg⟩ :=
    fits_gapPlan.exists_generates sound_gapPlan distinctNames_gapSession rfl (by simp [sources_gapPlan])
  have hsound : gapPlan.Sound (Site.Progress.mk gapSession.files []).tree := sound_gapPlan
  obtain ⟨progress, hsite, -⟩ := Site.exists_generate hsound distinctNames_gapSession hg
  obtain ⟨s₂, hgenerate⟩ := (generate_builds isReady_gapSession plans_generateGap).2 ⟨_, progress, hsite⟩
  rw [markdown_gap.1 hshown] at hdata
  refine ⟨e, s₁, s₂, _, hdata, hconvert, hout, hgenerate, fun rights hsame => ?_⟩
  obtain ⟨rights', hpage⟩ := look_gapPage hgenerate
  have hbytes := Except.ok.inj (hpage.symm.trans hsame)
  exact absurd (FileTree.file.inj hbytes).1 (by decide)

end Command

end DocMark
