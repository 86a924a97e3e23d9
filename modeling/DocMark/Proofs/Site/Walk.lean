import DocMark.Proofs.Site.Plan
import DocMark.Proofs.Text.Raw
import Mathlib.Data.List.Lex
import Mathlib.Data.List.Sort

/-!
The walk through a source directory, and what it lists.

The walk decides on each directory when it comes to it, and never looks into one that it leaves out. What
it lists can be said of each path alone: `Plan.Lists` has one condition for the file and one for every
directory above it. The walk comes upon these paths if the system lets their directories be listed
(`Plan.Sees`). The files that it comes upon are the sources (`mem_sources_iff`), in strictly increasing order
(`pairwise_sources`).
-/

namespace DocMark

theorem Path.append_relative (p : Path) (parts : List RawText) :
    p ++ (⟨[], parts⟩ : Path) = ⟨p.root, p.parts ++ parts⟩ := rfl

namespace Site

open FileTree

/-! ### Paths of a walk -/

section Walk

variable {skips : List RawText → Bool} {wanted : RawText → Bool}

/-- The path leads from `above` through a tree to a wanted file, and no directory on the way is skipped,
the top of the tree included. -/
def Reaches (skips : List RawText → Bool) (wanted : RawText → Bool) (above : List RawText) (t : FileTree)
    (path : List RawText) : Prop :=
  ∃ ps b, path = above ++ ps ∧ t.nodeAt ps = some (.file b) ∧ wanted (path.getLastD []) = true ∧
    ∀ q, q <+: ps → q ≠ ps → skips (above ++ q) = false

theorem sourcesIn_eq_flatMap (above : List RawText) (es : List (RawText × FileTree)) :
    sourcesIn skips wanted above es =
      es.flatMap fun e => sourcesAt skips wanted (above ++ [e.1]) e.2 := by
  induction es with
  | nil => rfl
  | cons e es ih => rw [sourcesIn, ih, List.flatMap_cons]

/-- A walk through the entries of a directory, when the walks from the entries are known. -/
theorem mem_sourcesIn_of {es : List (RawText × FileTree)} (r : Rights) (hnodup : (es.map Prod.fst).Nodup)
    {above path : List RawText}
    (h : ∀ e ∈ es, path ∈ sourcesAt skips wanted (above ++ [e.1]) e.2 ↔
      Reaches skips wanted (above ++ [e.1]) e.2 path) :
    path ∈ sourcesIn skips wanted above es ↔
      ∃ ps b, path = above ++ ps ∧ (FileTree.dir es r).nodeAt ps = some (.file b) ∧
        wanted (path.getLastD []) = true ∧
        ∀ q, q <+: ps → q ≠ ps → q ≠ [] → skips (above ++ q) = false := by
  rw [sourcesIn_eq_flatMap, List.mem_flatMap]
  constructor
  · rintro ⟨e, he, hmem⟩
    obtain ⟨ps, b, rfl, hnode, hwanted, hkept⟩ := (h e he).mp hmem
    refine ⟨e.1 :: ps, b, by simp, ?_, hwanted, ?_⟩
    · rw [nodeAt_dir_cons, (lookup_eq_some_iff_mem hnodup).mpr he]
      exact hnode
    · intro q hq hne hnil
      rcases List.prefix_cons_iff.mp hq with rfl | ⟨r, rfl, hr⟩
      · exact absurd rfl hnil
      · have hbelow := hkept r hr (by simpa using hne)
        rwa [List.append_assoc] at hbelow
  · rintro ⟨ps, b, rfl, hnode, hwanted, hkept⟩
    cases ps with
    | nil => cases hnode
    | cons p ps =>
      rw [nodeAt_dir_cons] at hnode
      obtain ⟨u, hu, hnode⟩ := Option.bind_eq_some_iff.mp hnode
      have he := (lookup_eq_some_iff_mem hnodup).mp hu
      refine ⟨(p, u), he, (h (p, u) he).mpr ⟨ps, b, by simp, hnode, hwanted, ?_⟩⟩
      intro q hq hne
      rw [List.append_assoc]
      exact hkept (p :: q) (List.cons_prefix_cons.mpr ⟨rfl, hq⟩) (by simpa using hne) (by simp)

/-- **The walk from a node** lists the wanted files that it reaches. -/
theorem mem_sourcesAt_iff {t : FileTree} (h : t.DistinctNames) {above path : List RawText} :
    path ∈ sourcesAt skips wanted above t ↔ Reaches skips wanted above t path := by
  induction h generalizing above with
  | @file b r =>
    rw [sourcesAt]
    constructor
    · intro hmem
      split at hmem
      · rename_i hwanted
        obtain rfl := List.mem_singleton.mp hmem
        refine ⟨[], b, (List.append_nil path).symm, rfl, hwanted, fun q hq hne => ?_⟩
        exact absurd (List.prefix_nil.mp hq) hne
      · cases hmem
    · rintro ⟨ps, b', rfl, hnode, hwanted, -⟩
      cases ps with
      | nil =>
        rw [List.append_nil] at hwanted ⊢
        rw [if_pos hwanted]
        exact List.mem_singleton.mpr rfl
      | cons p ps => cases hnode
  | @dir es r hnodup _ ih =>
    rw [sourcesAt]
    constructor
    · intro hmem
      split at hmem
      · cases hmem
      · rename_i hskip
        obtain ⟨ps, b, rfl, hnode, hwanted, hkept⟩ := (mem_sourcesIn_of r hnodup fun e he => ih e he).mp hmem
        refine ⟨ps, b, rfl, hnode, hwanted, fun q hq hne => ?_⟩
        by_cases hnil : q = []
        · simpa [hnil] using hskip
        · exact hkept q hq hne hnil
    · rintro ⟨ps, b, rfl, hnode, hwanted, hkept⟩
      have hne : [] ≠ ps := by
        rintro rfl
        cases hnode
      have hskip := hkept [] List.nil_prefix hne
      rw [List.append_nil] at hskip
      rw [hskip, if_neg Bool.false_ne_true, mem_sourcesIn_of r hnodup fun e he => ih e he]
      exact ⟨ps, b, rfl, hnode, hwanted, fun q hq hne _ => hkept q hq hne⟩

/-- The sources below a directory are its wanted files that no skipped directory hides. -/
theorem mem_sourcesIn_iff {es : List (RawText × FileTree)} {r : Rights} (h : DistinctNames (.dir es r))
    {above path : List RawText} :
    path ∈ sourcesIn skips wanted above es ↔
      ∃ ps b, path = above ++ ps ∧ (FileTree.dir es r).nodeAt ps = some (.file b) ∧
        wanted (path.getLastD []) = true ∧
        ∀ q, q <+: ps → q ≠ ps → q ≠ [] → skips (above ++ q) = false :=
  mem_sourcesIn_of r h.nodup fun _ he => mem_sourcesAt_iff (h.entry he)

/-- Paths below two entries differ in the name of the entry. -/
theorem nodup_sourcesIn_of {es : List (RawText × FileTree)} {r : Rights} (h : DistinctNames (.dir es r))
    {above : List RawText}
    (hes : ∀ e ∈ es, (sourcesAt skips wanted (above ++ [e.1]) e.2).Nodup) :
    (sourcesIn skips wanted above es).Nodup := by
  rw [sourcesIn_eq_flatMap, List.nodup_flatMap]
  refine ⟨hes, List.Pairwise.imp_of_mem ?_ (List.pairwise_map.mp h.nodup)⟩
  intro a b ha hb hne path hpa hpb
  obtain ⟨ps, -, rfl, -⟩ := (mem_sourcesAt_iff (h.entry ha)).mp hpa
  obtain ⟨qs, -, heq, -⟩ := (mem_sourcesAt_iff (h.entry hb)).mp hpb
  have hnames : a.1 = b.1 := by
    simpa using List.append_inj_left heq (by simp)
  exact hne hnames

/-- No source is found twice. -/
theorem nodup_sourcesAt {t : FileTree} (h : t.DistinctNames) (above : List RawText) :
    (sourcesAt skips wanted above t).Nodup := by
  induction h generalizing above with
  | @file b r =>
    rw [sourcesAt]
    split
    · exact List.nodup_singleton above
    · exact List.nodup_nil
  | @dir es r hnodup hes ih =>
    rw [sourcesAt]
    split
    · exact List.nodup_nil
    · exact nodup_sourcesIn_of (r := r) (.dir hnodup hes) fun e he => ih e he _

end Walk

/-! ### The order of paths -/

theorem pathLe_iff {a b : List RawText} : pathLe a b = true ↔ a ≤ b := by
  rw [pathLe, decide_eq_true_eq]
  exact not_lt

/-- Different paths are sorted strictly. -/
theorem pairwise_mergeSort_pathLe {paths : List (List RawText)} (h : paths.Nodup) :
    (paths.mergeSort pathLe).Pairwise (· < ·) := by
  have hsorted : (paths.mergeSort pathLe).Pairwise fun a b => pathLe a b = true := by
    apply List.pairwise_mergeSort
    · intro a b c hab hbc
      exact pathLe_iff.mpr ((pathLe_iff.mp hab).trans (pathLe_iff.mp hbc))
    · intro a b
      rw [Bool.or_eq_true, pathLe_iff, pathLe_iff]
      exact le_total a b
  have hnodup : (paths.mergeSort pathLe).Nodup := (List.mergeSort_perm paths pathLe).nodup_iff.mpr h
  exact hsorted.imp₂ (fun a b hle hne => lt_of_le_of_ne (pathLe_iff.mp hle) hne) hnodup

/-! ### What a plan lists -/

/-- The file `f` below the directories `dirs` is listed, if there is such a file: it has the extension, and
neither it nor one of the directories is hidden or left out. -/
structure Plan.Lists (p : Plan) (dirs : List RawText) (f : RawText) : Prop where
  file_visible : ¬ [.char '.'] <+: f
  file_suffix : suffix p.extension <:+ f
  dirs_visible : ∀ d ∈ dirs, ¬ [.char '.'] <+: d
  dirs_kept : ∀ d ∈ dirs, d ∉ p.excludes.map RawText.ofText
  paths_kept : ∀ q, q <+: dirs → q ≠ [] → RawText.joined q ∉ p.excludes.map RawText.ofText
  /-- No directory is that of the pages, or below it, when the pages go strictly below the sources. -/
  output_apart : ∀ out, p.outputDir.parts = p.sourceRoot.parts ++ out → out ≠ [] →
    ∀ q, q <+: dirs → ¬ out <+: q

/-- A file at the path, seen from the source directory, would be listed. -/
def Plan.Listed (p : Plan) (path : List RawText) : Prop :=
  ∃ dirs f, path = dirs ++ [f] ∧ p.Lists dirs f

/-- The walk comes upon a listed file at the path, since all directories above it can be read. -/
structure Plan.Sees (p : Plan) (tree : FileTree) (path : List RawText) : Prop where
  listed : p.Listed path
  dirs_readable : ∀ q, q <+: path → q ≠ path →
    CanRead tree.access ⟨p.sourceRoot.root, p.sourceRoot.parts ++ q⟩

/-- The path leads from the source directory to a file of the tree that the walk comes upon. -/
def Plan.IsSource (p : Plan) (tree : FileTree) (path : List RawText) : Prop :=
  p.Sees tree path ∧ ∃ content, tree.nodeAt (p.sourceRoot.parts ++ path) = some (.file content)

theorem Plan.Listed.ne_nil {p : Plan} {s : List RawText} (h : p.Listed s) : s ≠ [] := by
  obtain ⟨dirs, f, rfl, -⟩ := h
  simp

/-- Listed paths are visible all along, so they do not lead upwards. -/
theorem Plan.Listed.up_notMem {p : Plan} {s : List RawText} (h : p.Listed s) : Path.up ∉ s := by
  have hhidden : [.char '.'] <+: Path.up := ⟨[.char '.'], rfl⟩
  obtain ⟨dirs, f, rfl, hlists⟩ := h
  intro hmem
  rcases List.mem_append.mp hmem with hdir | hfile
  · exact hlists.dirs_visible _ hdir hhidden
  · rw [List.mem_singleton] at hfile
    exact hlists.file_visible (hfile ▸ hhidden)

theorem isHidden_iff {name : RawText} : isHidden name = true ↔ [.char '.'] <+: name :=
  List.isPrefixOf_iff_prefix

theorem isSource_iff {extension : Text} {name : RawText} :
    isSource extension name = true ↔ ¬ [.char '.'] <+: name ∧ suffix extension <:+ name := by
  rw [isSource, Bool.and_eq_true, Bool.and_eq_true, Bool.not_eq_true', Bool.eq_false_iff, ne_eq,
    isHidden_iff, List.isSuffixOf_iff_suffix]
  constructor
  · exact fun h => h.1
  · intro h
    refine ⟨h, bne_iff_ne.mpr ?_⟩
    rintro rfl
    exact h.1 ⟨RawText.ofText extension, rfl⟩

/-- A directory is looked into unless it is hidden, excluded by name or path, or inside the output directory. -/
theorem skipsDir_eq_false_iff {excludes : List Text} {output : Option (List RawText)} {q : List RawText} :
    skipsDir excludes output q = false ↔
      ¬ [.char '.'] <+: q.getLastD [] ∧ q.getLastD [] ∉ excludes.map RawText.ofText ∧
        (∀ out, output = some out → out ≠ [] → ¬ out <+: q) ∧
        RawText.joined q ∉ excludes.map RawText.ofText := by
  simp only [skipsDir, ← isHidden_iff, Bool.or_eq_false_iff, List.contains_eq_mem,
    decide_eq_false_iff_not, and_assoc, Bool.not_eq_true]
  refine and_congr_right fun _ => and_congr_right fun _ => and_congr_left fun _ => ?_
  cases output with
  | none => simp
  | some out =>
    simp only [Option.some.injEq, forall_eq', Bool.and_eq_false_iff, Bool.not_eq_false',
      List.isEmpty_iff, ← List.isPrefixOf_iff_prefix, Bool.not_eq_true]
    tauto

theorem below?_eq_some_iff {base p : Path} (h : base.root = p.root) {out : List RawText} :
    base.below? p = some out ↔ p.parts = base.parts ++ out := by
  rw [Path.below?, if_pos h, List.isPrefixOf?_eq_some_iff_append_eq, eq_comm]

/-- A file is listed exactly if the walk wants it and skips no directory above it. -/
theorem lists_iff {p : Plan} (hroot : p.sourceRoot.root = p.outputDir.root) {dirs : List RawText} {f : RawText} :
    p.Lists dirs f ↔ isSource p.extension f = true ∧
      ∀ q, q <+: dirs → q ≠ [] →
        skipsDir p.excludes (p.sourceRoot.below? p.outputDir) q = false := by
  have hlast : ∀ q : List RawText, q ≠ [] → q.getLastD [] ∈ q := by
    intro q hq
    rw [List.getLastD_eq_getLast?, List.getLast?_eq_some_getLast hq]
    exact List.getLast_mem hq
  constructor
  · intro h
    refine ⟨isSource_iff.mpr ⟨h.file_visible, h.file_suffix⟩, fun q hq hne => ?_⟩
    have hmem := hq.subset (hlast q hne)
    refine skipsDir_eq_false_iff.mpr ⟨h.dirs_visible _ hmem, h.dirs_kept _ hmem, ?_, h.paths_kept q hq hne⟩
    intro out hout hnil
    exact h.output_apart out ((below?_eq_some_iff hroot).mp hout) hnil q hq
  · rintro ⟨hfile, hdirs⟩
    obtain ⟨hvisible, hsuffix⟩ := isSource_iff.mp hfile
    have hstep : ∀ q, q <+: dirs → q ≠ [] → _ := fun q hq hne =>
      skipsDir_eq_false_iff.mp (hdirs q hq hne)
    -- Each directory is the last name of a path that the walk goes through.
    have hdir : ∀ d ∈ dirs, ¬ [.char '.'] <+: d ∧ d ∉ p.excludes.map RawText.ofText := by
      intro d hd
      obtain ⟨front, back, rfl⟩ := List.append_of_mem hd
      have hq := hstep (front ++ [d]) ⟨back, by simp⟩ (by simp)
      rw [List.getLastD_concat] at hq
      exact ⟨hq.1, hq.2.1⟩
    exact
      { file_visible := hvisible
        file_suffix := hsuffix
        dirs_visible := fun d hd => (hdir d hd).1
        dirs_kept := fun d hd => (hdir d hd).2
        paths_kept := fun q hq hne => (hstep q hq hne).2.2.2
        output_apart := by
          intro out hout hnil q hq hpre
          have hne : q ≠ [] := fun heq => hnil (List.prefix_nil.mp (heq ▸ hpre))
          exact (hstep q hq hne).2.2.1 out ((below?_eq_some_iff hroot).mpr hout) hnil hpre }

section Sources

variable {p : Plan} {tree : FileTree}

/-- Whether the walk of a plan leaves out a directory: it is skipped, or it cannot be listed. -/
def Plan.leavesOut (p : Plan) (tree : FileTree) (q : List RawText) : Bool :=
  skipsDir p.excludes (p.sourceRoot.below? p.outputDir) q || !(tree.list (p.sourceRoot ++ (⟨[], q⟩ : Path))).isOk

/-- A directory that is not skipped is left out only when it cannot be read. -/
theorem leavesOut_eq_false_iff (h : p.Sound tree) {q : List RawText} (hup : Path.up ∉ q)
    (hdir : tree.nodeAt (p.sourceRoot.parts ++ q) = some .dir) :
    p.leavesOut tree q = false ↔ skipsDir p.excludes (p.sourceRoot.below? p.outputDir) q = false ∧
      CanRead tree.access ⟨p.sourceRoot.root, p.sourceRoot.parts ++ q⟩ := by
  have hup' : Path.up ∉ p.sourceRoot.parts ++ q := by simp [h.root_ups, hup]
  have hlist : ∀ es, tree.list ⟨p.sourceRoot.root, p.sourceRoot.parts ++ q⟩ = .ok es ↔ _ :=
    fun es => list_eq_ok_iff (p := ⟨p.sourceRoot.root, p.sourceRoot.parts ++ q⟩) h.root_abs hup'
  rw [Plan.leavesOut, Bool.or_eq_false_iff, Bool.not_eq_false', Path.append_relative]
  refine and_congr_right fun _ => ⟨fun hok => ?_, fun hread => ?_⟩
  · cases hes : tree.list ⟨p.sourceRoot.root, p.sourceRoot.parts ++ q⟩ with
    | error e =>
      rw [hes] at hok
      cases hok
    | ok es => exact ((hlist es).mp hes).2
  · obtain ⟨es, r, hfind⟩ := nodeAt_eq_dir_iff.mp hdir
    rw [(hlist es).mpr ⟨⟨r, hfind⟩, hread⟩]
    rfl

/-- Without the right to list it, the source directory counts as empty. -/
theorem sources_of_not_canRead (h : p.Sound tree) (hread : ¬ CanRead tree.access p.sourceRoot) :
    p.sources tree = [] := by
  rw [Plan.sources, Site.sources]
  cases hes : tree.list p.sourceRoot with
  | error e => rfl
  | ok es => exact absurd ((list_eq_ok_iff h.root_abs h.root_ups).mp hes).2 hread

theorem sources_eq (h : p.Sound tree) (hread : CanRead tree.access p.sourceRoot) :
    ∃ es r, tree.find p.sourceRoot.parts = .ok (.dir es r) ∧
      p.sources tree = (sourcesIn (p.leavesOut tree) (isSource p.extension) [] es).mergeSort pathLe := by
  obtain ⟨es, r, hes⟩ := nodeAt_eq_dir_iff.mp h.root_dir
  refine ⟨es, r, hes, ?_⟩
  rw [Plan.sources, Site.sources, (list_eq_ok_iff h.root_abs h.root_ups).mpr ⟨⟨r, hes⟩, hread⟩]
  rfl

/-- A walk that comes upon the sources in order gives them as they are. -/
theorem sources_eq_of_walk (h : p.Sound tree) {es : List (RawText × FileTree)} {r : Rights}
    {paths : List (List RawText)} (hes : tree.find p.sourceRoot.parts = .ok (.dir es r))
    (hread : CanRead tree.access p.sourceRoot)
    (hwalk : sourcesIn (p.leavesOut tree) (isSource p.extension) [] es = paths)
    (hsorted : paths.Pairwise fun a b => pathLe a b = true) : p.sources tree = paths := by
  obtain ⟨es', r', hes', hsources⟩ := sources_eq h hread
  cases hes.symm.trans hes'
  rw [hsources, hwalk, List.mergeSort_of_pairwise hsorted]

/-- **The sources are the listed files that the walk comes upon.** -/
theorem mem_sources_iff (h : p.Sound tree) (hd : tree.DistinctNames) {path : List RawText} :
    path ∈ p.sources tree ↔ p.IsSource tree path := by
  by_cases hread : CanRead tree.access p.sourceRoot
  · obtain ⟨es, r, hes, hsources⟩ := sources_eq h hread
    rw [hsources, List.mem_mergeSort, mem_sourcesIn_iff (hd.find hes)]
    simp only [List.nil_append, Plan.IsSource, nodeAt_append_of_find hes]
    constructor
    · rintro ⟨_, b, rfl, hnode, hwanted, hkept⟩
      have hne : path ≠ [] := by
        rintro rfl
        cases hnode
      obtain ⟨dirs, f, rfl⟩ : ∃ dirs f, path = dirs ++ [f] :=
        ⟨path.dropLast, path.getLast hne, (List.dropLast_concat_getLast hne).symm⟩
      rw [List.getLastD_concat] at hwanted
      have hlisted : p.Listed (dirs ++ [f]) := by
        refine ⟨dirs, f, rfl, (lists_iff h.same_root).mpr ⟨hwanted, fun q hq hne => ?_⟩⟩
        refine (Bool.or_eq_false_iff.mp (hkept q (hq.trans (List.prefix_append dirs [f])) ?_ hne)).1
        rintro rfl
        exact not_append_isPrefix dirs (List.cons_ne_nil f []) hq
      refine ⟨⟨hlisted, fun q hq hneq => ?_⟩, b, hnode⟩
      by_cases hnil : q = []
      · rw [hnil, List.append_nil]
        exact hread
      · have hdir : tree.nodeAt (p.sourceRoot.parts ++ q) = some .dir := by
          rw [nodeAt_append_of_find hes]
          exact nodeAt_eq_dir_of_isPrefix hnode hq hneq
        have hup : Path.up ∉ q := fun hmem => hlisted.up_notMem (hq.subset hmem)
        exact ((leavesOut_eq_false_iff h hup hdir).mp (hkept q hq hneq hnil)).2
    · rintro ⟨⟨hlisted, hdirs⟩, b, hnode⟩
      have hups := hlisted.up_notMem
      obtain ⟨dirs, f, rfl, hlists⟩ := hlisted
      obtain ⟨hwanted, hkept⟩ := (lists_iff h.same_root).mp hlists
      refine ⟨_, b, rfl, hnode, by rwa [List.getLastD_concat], fun q hq hne hnil => ?_⟩
      have hdir : tree.nodeAt (p.sourceRoot.parts ++ q) = some .dir := by
        rw [nodeAt_append_of_find hes]
        exact nodeAt_eq_dir_of_isPrefix hnode hq hne
      refine (leavesOut_eq_false_iff h (fun hmem => hups (hq.subset hmem)) hdir).mpr ⟨?_, hdirs q hq hne⟩
      exact hkept q ((List.prefix_concat_iff.mp hq).resolve_left hne) hnil
  · rw [sources_of_not_canRead h hread]
    refine iff_of_false List.not_mem_nil ?_
    rintro ⟨⟨hlisted, hdirs⟩, -⟩
    have htop := hdirs [] List.nil_prefix hlisted.ne_nil.symm
    rw [List.append_nil] at htop
    exact hread htop

/-- Sources come in strict order. -/
theorem pairwise_sources (h : p.Sound tree) (hd : tree.DistinctNames) :
    (p.sources tree).Pairwise (· < ·) := by
  by_cases hread : CanRead tree.access p.sourceRoot
  · obtain ⟨es, r, hes, hsources⟩ := sources_eq h hread
    have hes := hd.find hes
    rw [hsources]
    exact pairwise_mergeSort_pathLe (nodup_sourcesIn_of hes fun e he => nodup_sourcesAt (hes.entry he) _)
  · rw [sources_of_not_canRead h hread]
    exact List.Pairwise.nil

/-- The sources depend only on the files that the walk comes upon. -/
theorem sources_congr {tree' : FileTree} (h : p.Sound tree) (hd : tree.DistinctNames)
    (h' : p.Sound tree') (hd' : tree'.DistinctNames)
    (hfiles : ∀ path, p.IsSource tree' path ↔ p.IsSource tree path) :
    p.sources tree' = p.sources tree := by
  refine (pairwise_sources h' hd').eq_of_mem_iff (pairwise_sources h hd) fun path => ?_
  rw [mem_sources_iff h' hd', mem_sources_iff h hd, hfiles]

end Sources

end Site

end DocMark
