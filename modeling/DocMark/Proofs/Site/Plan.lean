import DocMark.Proofs.FileTree.Writing
import DocMark.Site.Generate

/-!
What a plan settles.

A request becomes a plan only when its source directory exists. `Plan.Sound` holds what later work relies
on: absolute paths without `..`, a directory at the source path, an extension, and one of the named
flavors. Whether a request is accepted, and as which plan, depends on the tree only through the existence
of that directory (`ofRequest_congr`), and on the extension only through what is left of it
(`ofRequest_congr_extension`, `ofRequest_with_extension`).
-/

namespace DocMark

theorem Path.up_notMem_cancelUps (parts : List RawText) : up ∉ cancelUps parts := by
  have hfold : ∀ (parts done : List RawText), up ∉ done →
      up ∉ parts.foldl (fun done p => if p = up then done.dropLast else done ++ [p]) done := by
    intro parts
    induction parts with
    | nil => exact fun done hdone => hdone
    | cons p parts ih =>
      intro done hdone
      rw [List.foldl_cons]
      apply ih
      split
      · exact fun hmem => hdone (List.dropLast_subset done hmem)
      · rename_i hp
        simpa [hdone] using fun heq => hp heq.symm
  exact hfold parts [] List.not_mem_nil

namespace Site

open FileTree

structure Plan.Sound (p : Plan) (tree : FileTree) : Prop where
  root_abs : p.sourceRoot.root ≠ []
  root_ups : Path.up ∉ p.sourceRoot.parts
  root_dir : tree.nodeAt p.sourceRoot.parts = some .dir
  root_follows : Follows tree.access p.sourceRoot
  output_abs : p.outputDir.root ≠ []
  output_ups : Path.up ∉ p.outputDir.parts
  same_root : p.sourceRoot.root = p.outputDir.root
  extension_ne : p.extension ≠ []
  flavor : p.flavor ∈ Flavor.named

theorem seen_eq_dir_iff {tree : FileTree} {p : Path} :
    (∃ es r, tree.seen p = .ok (some (.dir es r))) ↔ tree.hasDir p = true := by
  unfold seen hasDir
  cases tree.look p with
  | ok u => cases u <;> simp [isDir]
  | error e => cases e <;> simp

theorem mem_named_of_ofName {name : Text} {f : Flavor} (h : Flavor.ofName name = .ok f) :
    f ∈ Flavor.named := by
  unfold Flavor.ofName at h
  split at h
  · rename_i g hg
    exact Except.ok.inj h ▸ List.mem_of_find?_eq_some hg
  · cases h

/-- What an accepted request was checked for, and what its plan holds. -/
theorem ofRequest_eq_ok {tree : FileTree} {cwd : Path} {r : Request} {p : Plan}
    (h : Plan.ofRequest tree cwd r = .ok p) :
    tree.hasDir p.sourceRoot = true ∧ p.extension ≠ [] ∧
      (Flavor.ofName r.flavor = .ok p.flavor ∧ p.headingLevel = r.headingLevel) ∧
      p.sourceRoot = cwd.resolve r.source ∧ p.outputDir = cwd.resolve r.output ∧
      p.excludes = effectiveExcludes r.excludes := by
  unfold Plan.ofRequest at h
  simp only [bind, Except.bind, pure, Except.pure, throw, throwThe, MonadExceptOf.throw] at h
  split at h
  · cases h
  · split at h
    · rename_i es rights hseen
      split at h
      · cases h
      · split at h
        · cases h
        · rename_i hextension
          split at h
          · cases h
          · rename_i flavor hflavor
            obtain rfl := Except.ok.inj h
            refine ⟨seen_eq_dir_iff.mp ⟨es, rights, hseen⟩, by simpa using hextension, ?_, rfl, rfl, rfl⟩
            cases hname : Flavor.ofName r.flavor with
            | error e => simp [hname, Except.mapError] at hflavor
            | ok f =>
              rw [hname] at hflavor
              exact ⟨congrArg Except.ok (Except.ok.inj hflavor), rfl⟩
    · cases h
    · cases h

/-- A request that is accepted is accepted with every other extension that is one. -/
theorem ofRequest_with_extension {tree : FileTree} {cwd : Path} {r : Request} {p : Plan}
    (h : Plan.ofRequest tree cwd r = .ok p) (s : Text) :
    p.extension = normalizeExtension r.extension ∧
      Plan.ofRequest tree cwd { r with extension := s } =
        if normalizeExtension s = [] then .error .emptyExtension
        else .ok { p with extension := normalizeExtension s } := by
  unfold Plan.ofRequest at h ⊢
  simp only [bind, Except.bind, pure, Except.pure, throw, throwThe, MonadExceptOf.throw] at h ⊢
  split at h
  · cases h
  · rename_i hsource
    rw [if_neg hsource]
    split at h
    · split at h
      · cases h
      · rename_i houtput
        rw [if_neg houtput]
        split at h
        · cases h
        · split at h
          · cases h
          · obtain rfl := Except.ok.inj h
            simp only [List.isEmpty_iff, and_self]
    · cases h
    · cases h

/-- Of an extension, a request only takes what is left of it. -/
theorem ofRequest_congr_extension {s t : Text} (h : normalizeExtension s = normalizeExtension t)
    (tree : FileTree) (cwd : Path) (r : Request) :
    Plan.ofRequest tree cwd { r with extension := s } = Plan.ofRequest tree cwd { r with extension := t } := by
  unfold Plan.ofRequest
  simp only [h]

/-- Of a tree, a request only asks whether its source directory is there. -/
theorem ofRequest_congr {tree tree' : FileTree} {cwd : Path} {r : Request} {p : Plan}
    (h : Plan.ofRequest tree cwd r = .ok p) (hdir : tree'.hasDir p.sourceRoot = true) :
    Plan.ofRequest tree' cwd r = .ok p := by
  obtain ⟨hdir', -, -, hroot, -⟩ := ofRequest_eq_ok h
  rw [hroot] at hdir hdir'
  obtain ⟨es, rights, hes⟩ := seen_eq_dir_iff.mpr hdir'
  obtain ⟨es', rights', hes'⟩ := seen_eq_dir_iff.mpr hdir
  rw [← h]
  unfold Plan.ofRequest
  simp only [hes, hes']

/-- A plan that was made of a request is sound. -/
theorem sound_of_ofRequest {tree : FileTree} {cwd : Path} {r : Request} {p : Plan}
    (h : Plan.ofRequest tree cwd r = .ok p) : p.Sound tree := by
  obtain ⟨hdir, hextension, hflavor, hsource, houtput, -⟩ := ofRequest_eq_ok h
  have hups : Path.up ∉ p.sourceRoot.parts := by
    rw [hsource]
    exact Path.up_notMem_cancelUps _
  have habs : p.sourceRoot.root ≠ [] := by
    rw [hsource]
    simp [Path.resolve]
  obtain ⟨hnode, hfollows⟩ := (hasDir_iff habs hups).mp hdir
  exact
    { root_abs := habs
      root_ups := hups
      root_dir := hnode
      root_follows := hfollows
      output_abs := by rw [houtput]; simp [Path.resolve]
      output_ups := by rw [houtput]; exact Path.up_notMem_cancelUps _
      same_root := by rw [hsource, houtput]; rfl
      extension_ne := hextension
      flavor := mem_named_of_ofName hflavor.1 }

end Site

end DocMark
