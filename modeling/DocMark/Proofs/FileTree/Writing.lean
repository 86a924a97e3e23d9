import DocMark.Proofs.FileTree.Operations
import DocMark.Proofs.Runs

/-!
Directories and files made together with the directories above them.

* `makeDirs_spec`, `exists_makeDirs`: making a directory with its missing parents succeeds exactly when no
  file is in the way and the system allows it, and adds directories along the path.
* `save_spec`, `exists_save`: the same for a file together with its directories.
* `look_of_write`: what was written is found again, also through a path that goes up on its way.

None of these changes what may be done at any path.
-/

namespace DocMark.FileTree

/-! ### Directories with their parents -/

/-- The nodes with directories at a path and all along the way to it. -/
def withDirs (v : List RawText → Option Node) (ps : List RawText) : List RawText → Option Node :=
  fun q => if q <+: ps then some .dir else v q

/-- No file stands at a path or on the way to it. -/
def Passable (v : List RawText → Option Node) (ps : List RawText) : Prop :=
  ∀ q, q <+: ps → ∀ b, v q ≠ some (.file b)

/-- A directory stands at the path, or it can be made there with those on the way that are missing. -/
structure CanMake (t : FileTree) (p : Path) : Prop where
  passable : Passable t.nodeAt p.parts
  follows : Follows t.access p
  write : t.nodeAt p.parts = none → (t.access p.parts).write = true

/-- A directory stands at the path, perhaps a new one. -/
structure HasDirs (t : FileTree) (p : Path) (t' : FileTree) : Prop where
  could : t.CanMake p
  nodes : t'.nodeAt = withDirs t.nodeAt p.parts
  access : t'.access = t.access
  distinct : t.DistinctNames → t'.DistinctNames

section Directories

variable {t t' : FileTree} {cwd p : Path} {root : Text}

/-- A directory that is there need not be made. -/
theorem HasDirs.of_dir (h : t.nodeAt p.parts = some .dir) (hfollows : Follows t.access p) :
    t.HasDirs p t := by
  have hdir : ∀ q, q <+: p.parts → t.nodeAt q = some .dir := by
    intro q hq
    by_cases hne : q = p.parts
    · rw [hne, h]
    · exact nodeAt_eq_dir_of_isPrefix h hq hne
  refine ⟨⟨fun q hq b hb => ?_, hfollows, fun hnone => ?_⟩, ?_, rfl, id⟩
  · rw [hdir q hq] at hb
    cases hb
  · rw [h] at hnone
    cases hnone
  · funext q
    rw [withDirs]
    split
    · rename_i hq
      exact hdir q hq
    · rfl

/-- An empty directory can be put where nothing was. -/
theorem HasDirs.of_put (h : t.Leads p) (hnone : t.nodeAt p.parts = none)
    (hwrite : (t.access p.parts).write = true) : t.HasDirs p (t.put p.parts (.dir [])) := by
  refine ⟨⟨fun q hq b hb => ?_, h.follows, fun _ => hwrite⟩, ?_, ?_, fun hd => hd.put .empty p.parts⟩
  · by_cases hne : q = p.parts
    · rw [hne, hnone] at hb
      cases hb
    · rw [h.dirs q hq hne] at hb
      cases hb
  · funext q
    rw [nodeAt_put h.dirs, withDirs]
    by_cases heq : q = p.parts
    · simp [heq, node]
    · by_cases hbelow : p.parts <+: q
      · -- Below the new directory there is nothing yet, as before.
        obtain ⟨rest, rfl⟩ := hbelow
        cases rest with
        | nil => exact absurd (List.append_nil p.parts) heq
        | cons r rest =>
          have hbefore : t.nodeAt (p.parts ++ r :: rest) = none := by
            cases hn : t.nodeAt (p.parts ++ r :: rest) with
            | none => rfl
            | some n =>
              rw [nodeAt_eq_dir_of_below hn] at hnone
              cases hnone
          rw [if_pos (List.prefix_append p.parts _),
            if_neg (not_append_isPrefix p.parts (List.cons_ne_nil r rest)), List.drop_left, hbefore,
            nodeAt_dir_cons]
          rfl
      · rw [if_neg hbelow]
        split
        · rename_i hq
          exact h.dirs q hq heq
        · rfl
  · exact access_put h.dirs (Or.inr ⟨hnone, hwrite, fun q => by cases q <;> rfl⟩)

/-- A directory was ensured: the path leads to it, and it was made or stood there already. -/
theorem ensureDir_spec (hroot : p.root ≠ []) (hup : Path.up ∉ p.parts)
    (h : Yields (ensureDir cwd p) t () t') : t.HasDirs p t' := by
  unfold ensureDir at h
  rw [yields_bind_iff] at h
  obtain ⟨_, _, hget, h⟩ := h
  obtain ⟨rfl, rfl⟩ := yields_get_iff.mp hget
  split at h
  · rename_i made hmake
    obtain rfl := yields_set_iff.mp h
    obtain ⟨hleads, hnone, hwrite, rfl⟩ := (makeDir_eq_ok_iff hroot hup).mp hmake
    exact .of_put hleads hnone hwrite
  · split at h
    · rename_i hdir
      obtain ⟨-, rfl⟩ := yields_pure_iff.mp h
      obtain ⟨hnode, hfollows⟩ := (hasDir_iff hroot hup).mp hdir
      exact .of_dir hnode hfollows
    · exact absurd h not_yields_throw

/-- A directory can be made below one that is there. -/
theorem exists_ensureDir (cwd : Path) (hroot : p.root ≠ []) (hup : Path.up ∉ p.parts) (hleads : t.Leads p)
    (h : t.CanMake p) : ∃ t', Yields (ensureDir cwd p) t () t' := by
  unfold ensureDir
  simp only [yields_bind_iff, yields_get_iff]
  cases hmake : t.makeDir p cwd with
  | ok made =>
    refine ⟨made, t, t, ⟨rfl, rfl⟩, ?_⟩
    simp only [hmake]
    exact yields_set_iff.mpr rfl
  | error e =>
    -- What stops a directory from being made is only that it stands there.
    have hdir : t.hasDir p cwd = true := by
      refine (hasDir_iff hroot hup).mpr ⟨?_, hleads.follows⟩
      cases hnode : t.nodeAt p.parts with
      | none =>
        rw [(makeDir_eq_ok_iff hroot hup).mpr ⟨hleads, hnode, h.write hnode, rfl⟩] at hmake
        cases hmake
      | some n =>
        cases n with
        | file b => exact absurd hnode (h.passable _ (List.prefix_refl _) b)
        | dir => rfl
    refine ⟨t, t, t, ⟨rfl, rfl⟩, ?_⟩
    simp only [hmake, hdir, if_true]
    exact yields_pure_iff.mpr ⟨rfl, rfl⟩

/-- A directory is made after its parent when that is missing, and right away otherwise. -/
theorem yields_makeDirsBackwards_cons_iff {name : RawText} {rest : List RawText} :
    Yields (makeDirsBackwards cwd root (name :: rest)) t () t' ↔
      (t.makeDir ⟨root, (name :: rest).reverse⟩ cwd = .error .notFound ∧
        ∃ t₁, Yields (makeDirsBackwards cwd root rest) t () t₁ ∧
          Yields (ensureDir cwd ⟨root, (name :: rest).reverse⟩) t₁ () t') ∨
      (t.makeDir ⟨root, (name :: rest).reverse⟩ cwd ≠ .error .notFound ∧
        Yields (ensureDir cwd ⟨root, (name :: rest).reverse⟩) t () t') := by
  rw [makeDirsBackwards]
  by_cases hmake : t.makeDir ⟨root, (name :: rest).reverse⟩ cwd = .error .notFound
  · simp only [yields_bind_iff, yields_get_iff]
    constructor
    · rintro ⟨_, _, ⟨rfl, rfl⟩, h⟩
      rw [hmake] at h
      obtain ⟨_, t₁, h₁, h₂⟩ := yields_bind_iff.mp h
      exact Or.inl ⟨hmake, t₁, h₁, h₂⟩
    · rintro (⟨-, t₁, h₁, h₂⟩ | ⟨hnot, -⟩)
      · refine ⟨t, t, ⟨rfl, rfl⟩, ?_⟩
        rw [hmake]
        exact yields_bind_iff.mpr ⟨(), t₁, h₁, h₂⟩
      · exact absurd hmake hnot
  · simp only [yields_bind_iff, yields_get_iff]
    constructor
    · rintro ⟨_, _, ⟨rfl, rfl⟩, h⟩
      split at h
      · exact absurd ‹_› hmake
      · exact Or.inr ⟨hmake, h⟩
    · rintro (⟨hnot, -⟩ | ⟨-, h⟩)
      · exact absurd hnot hmake
      · refine ⟨t, t, ⟨rfl, rfl⟩, ?_⟩
        split
        · exact absurd ‹_› hmake
        · exact h

/-- What stands at a path after its parents were made and then the last directory. -/
theorem HasDirs.concat {t₁ : FileTree} {ps : List RawText} {name : RawText} (h : t.HasDirs ⟨root, ps⟩ t₁)
    (h' : t₁.HasDirs ⟨root, ps ++ [name]⟩ t') : t.HasDirs ⟨root, ps ++ [name]⟩ t' := by
  have hnew : ¬ ps ++ [name] <+: ps := not_append_isPrefix ps (List.cons_ne_nil name [])
  have hlast : t₁.nodeAt (ps ++ [name]) = t.nodeAt (ps ++ [name]) := by
    rw [h.nodes, withDirs, if_neg hnew]
  have hcould := h'.could
  refine ⟨⟨fun q hq b hb => ?_, h.access ▸ hcould.follows, fun hnone => ?_⟩, ?_,
    h'.access.trans h.access, fun hd => h'.distinct (h.distinct hd)⟩
  · rcases List.prefix_concat_iff.mp hq with rfl | hq
    · exact hcould.passable _ hq b (hlast.trans hb)
    · exact h.could.passable q hq b hb
  · rw [← h.access]
    exact hcould.write (hlast.trans hnone)
  · funext q
    rw [h'.nodes, withDirs, withDirs, h.nodes, withDirs]
    by_cases hq : q <+: ps ++ [name]
    · rw [if_pos hq, if_pos hq]
    · rw [if_neg hq, if_neg hq, if_neg fun hpre => hq (hpre.trans (List.prefix_append ps [name]))]

/-- Making directories leaves directories all along the path. -/
theorem makeDirsBackwards_spec (hroot : root ≠ []) {back : List RawText} (hup : Path.up ∉ back)
    (h : Yields (makeDirsBackwards cwd root back) t () t') : t.HasDirs ⟨root, back.reverse⟩ t' := by
  induction back generalizing t t' with
  | nil =>
    rw [makeDirsBackwards] at h
    exact ensureDir_spec hroot (by simp) h
  | cons name rest ih =>
    have hup' : Path.up ∉ (name :: rest).reverse := fun hmem => hup (List.mem_reverse.mp hmem)
    rcases yields_makeDirsBackwards_cons_iff.mp h with ⟨-, t₁, h₁, h₂⟩ | ⟨-, h₂⟩
    · have hparent := ih (fun hmem => hup (List.mem_cons_of_mem name hmem)) h₁
      have hlast := ensureDir_spec hroot hup' h₂
      rw [List.reverse_cons] at hlast ⊢
      exact hparent.concat hlast
    · exact ensureDir_spec hroot hup' h₂

/-- The parent of a directory that can be made can be made too. -/
theorem CanMake.front {ps : List RawText} {name : RawText} (h : t.CanMake ⟨root, ps ++ [name]⟩) :
    t.CanMake ⟨root, ps⟩ := by
  have hpre : ps <+: ps ++ [name] := List.prefix_append ps [name]
  refine ⟨fun q hq => h.passable q (hq.trans hpre), h.follows.of_isPrefix hpre, fun hnone => ?_⟩
  rw [← access_write_of_none hnone [name]]
  apply h.write
  cases hnode : t.nodeAt (ps ++ [name]) with
  | none => rfl
  | some n =>
    rw [nodeAt_eq_dir_of_below hnode] at hnone
    cases hnone

/-- A path on which directories can be made leads on, unless directories on the way are missing. -/
theorem CanMake.leads (h : t.CanMake p) (hroot : p.root ≠ []) (hup : Path.up ∉ p.parts)
    (hmake : t.makeDir p cwd ≠ .error .notFound) : t.Leads p := by
  cases hfollow : t.follow p cwd with
  | ok names => exact ((follow_eq_ok_iff hroot hup).mp hfollow).2
  | error e =>
    have he : e = .notFound := by
      rw [follow_of_accepted hroot h.follows.accepted] at hfollow
      refine settle_eq_error hup h.follows.short ?_ ?_ hfollow
      · exact fun q hq _ => h.passable q hq
      · exact h.follows.search
    refine absurd ?_ hmake
    simp only [makeDir, hfollow, he]
    rfl

/-- Directories can be made where no file is in the way and the rights allow it. -/
theorem exists_makeDirsBackwards (hroot : root ≠ []) {back : List RawText} (hup : Path.up ∉ back)
    (h : t.CanMake ⟨root, back.reverse⟩) :
    ∃ t', Yields (makeDirsBackwards cwd root back) t () t' := by
  induction back with
  | nil =>
    rw [makeDirsBackwards]
    refine exists_ensureDir cwd hroot (by simp) ⟨fun q hq hne => ?_, h.follows⟩ h
    exact absurd (List.prefix_nil.mp hq) hne
  | cons name rest ih =>
    have hup' : Path.up ∉ (name :: rest).reverse := fun hmem => hup (List.mem_reverse.mp hmem)
    by_cases hmake : t.makeDir ⟨root, (name :: rest).reverse⟩ cwd = .error .notFound
    · have hparent : t.CanMake ⟨root, rest.reverse⟩ := by
        rw [List.reverse_cons] at h
        exact h.front
      obtain ⟨t₁, h₁⟩ := ih (fun hmem => hup (List.mem_cons_of_mem name hmem)) hparent
      have hdirs := makeDirsBackwards_spec hroot (fun hmem => hup (List.mem_cons_of_mem name hmem)) h₁
      -- Now all directories above the last one stand there.
      have hleads : t₁.Leads ⟨root, (name :: rest).reverse⟩ := by
        refine ⟨fun q hq hne => ?_, hdirs.access ▸ h.follows⟩
        simp only [List.reverse_cons] at hq hne
        rw [hdirs.nodes, withDirs, if_pos ((List.prefix_concat_iff.mp hq).resolve_left hne)]
      have hmake₁ : t₁.CanMake ⟨root, (name :: rest).reverse⟩ := by
        refine ⟨fun q hq b hb => ?_, hleads.follows, fun hnone => ?_⟩
        · rw [hdirs.nodes, withDirs] at hb
          split at hb
          · cases hb
          · exact h.passable q hq b hb
        · rw [hdirs.nodes, withDirs] at hnone
          split at hnone
          · cases hnone
          · rw [hdirs.access]
            exact h.write hnone
      obtain ⟨t', h₂⟩ := exists_ensureDir cwd hroot hup' hleads hmake₁
      exact ⟨t', yields_makeDirsBackwards_cons_iff.mpr (.inl ⟨hmake, t₁, h₁, h₂⟩)⟩
    · obtain ⟨t', h₂⟩ := exists_ensureDir cwd hroot hup' (h.leads hroot hup' hmake) h
      exact ⟨t', yields_makeDirsBackwards_cons_iff.mpr (.inr ⟨hmake, h₂⟩)⟩

/-- **Making a directory with its parents** needs a way without files, and gives directories all along
it. -/
theorem makeDirs_spec (hroot : p.root ≠ []) (hup : Path.up ∉ p.parts)
    (h : Yields (makeDirs cwd p) t () t') : t.HasDirs p t' := by
  have hdirs := makeDirsBackwards_spec hroot (by simpa using hup) h
  rwa [List.reverse_reverse] at hdirs

theorem exists_makeDirs (cwd : Path) (hroot : p.root ≠ []) (hup : Path.up ∉ p.parts)
    (h : t.CanMake p) : ∃ t', Yields (makeDirs cwd p) t () t' := by
  apply exists_makeDirsBackwards hroot (by simpa using hup)
  rwa [List.reverse_reverse]

end Directories

/-! ### Files with their directories -/

/-- The nodes with a file at a path and directories all along the way to it. -/
def withFile (v : List RawText → Option Node) (ps : List RawText) (c : Bytes) : List RawText → Option Node :=
  fun q => if q = ps then some (.file c) else if q <+: ps then some .dir else v q

/-- A file can be put at a path together with its directories: no file is in the way, and no directory stands
there. -/
structure Free (v : List RawText → Option Node) (ps : List RawText) : Prop where
  no_file : ∀ q, q <+: ps → q ≠ ps → ∀ b, v q ≠ some (.file b)
  no_dir : v ps ≠ some .dir

theorem prefix_dropLast_iff {q ps : List RawText} (hne : ps ≠ []) :
    q <+: ps.dropLast ↔ q <+: ps ∧ q ≠ ps := by
  obtain ⟨front, last, rfl⟩ : ∃ front last, ps = front ++ [last] :=
    ⟨ps.dropLast, ps.getLast hne, (List.dropLast_append_getLast hne).symm⟩
  rw [List.dropLast_concat, List.prefix_concat_iff]
  constructor
  · intro hq
    refine ⟨Or.inr hq, ?_⟩
    rintro rfl
    exact not_append_isPrefix front (List.cons_ne_nil last []) hq
  · rintro ⟨hq, hne'⟩
    exact hq.resolve_left hne'

/-- A file stands at the path, perhaps in new directories. -/
structure HasFile (t : FileTree) (p : Path) (c : Bytes) (t' : FileTree) : Prop where
  free : Free t.nodeAt p.parts
  could : CanWrite t.access p
  nodes : t'.nodeAt = withFile t.nodeAt p.parts c
  access : t'.access = t.access
  distinct : t.DistinctNames → t'.DistinctNames

section FileFor

variable {t : FileTree} {ps : List RawText} {c : Bytes}

theorem exists_fileFor (t : FileTree) (ps : List RawText) (c : Bytes) : ∃ r, t.fileFor ps c = .file c r := by
  unfold fileFor
  cases t.find ps with
  | ok u => exact ⟨u.rights, rfl⟩
  | error e => exact ⟨{}, rfl⟩

/-- A file that is written leaves all rights as they were. -/
theorem access_put_fileFor (hdirs : ∀ q, q <+: ps → q ≠ ps → t.nodeAt q = some .dir)
    (hnodir : t.nodeAt ps ≠ some .dir) (hwrite : (t.access ps).write = true) :
    (t.put ps (t.fileFor ps c)).access = t.access := by
  apply access_put hdirs
  cases hfind : t.find ps with
  | error e =>
    refine Or.inr ⟨nodeAt_eq_none_iff.mpr ⟨e, hfind⟩, hwrite, fun q => ?_⟩
    rw [fileFor, hfind]
    cases q <;> rfl
  | ok u =>
    refine Or.inl ⟨u, rfl, ?_⟩
    rw [fileFor, hfind]
    cases u with
    | dir es r => exact absurd (nodeAt_eq_dir_iff.mpr ⟨es, r, hfind⟩) hnodir
    | file b r => exact access_file c b r

end FileFor

section Files

variable {t t' : FileTree} {cwd p : Path} {c : Bytes}

theorem yields_writeFile_iff : Yields (writeFile cwd p c) t () t' ↔ t.write p c cwd = .ok t' := by
  unfold writeFile
  simp only [yields_bind_iff, yields_get_iff]
  constructor
  · rintro ⟨_, _, ⟨rfl, rfl⟩, h⟩
    split at h
    · rename_i made hwrite
      rw [hwrite, yields_set_iff.mp h]
    · exact absurd h not_yields_throw
  · intro hwrite
    refine ⟨t, t, ⟨rfl, rfl⟩, ?_⟩
    rw [hwrite]
    exact yields_set_iff.mpr rfl

/-- Whether a file can be written does not depend on what is to be written. -/
theorem write_eq_error_congr {e : FileCause} (h : t.write p c cwd = .error e) (c' : Bytes) :
    t.write p c' cwd = .error e := by
  simp only [write, add, bind, Except.bind] at h ⊢
  repeat' split at h
  all_goals simp_all

/-- Whether and how saving fails does not depend on the bytes. -/
theorem fails_save_congr {e : FileError} (h : Fails (save cwd p c) t e t') (c' : Bytes) :
    Fails (save cwd p c') t e t' := by
  rcases fails_bind_iff.mp h with hmake | ⟨_, t₁, hmake, hwrite⟩
  · exact fails_bind_iff.mpr (Or.inl hmake)
  · refine fails_bind_iff.mpr (Or.inr ⟨(), t₁, hmake, ?_⟩)
    rcases fails_bind_iff.mp hwrite with hget | ⟨_, _, hget, hwrite⟩
    · exact absurd hget not_fails_get
    · obtain ⟨rfl, rfl⟩ := yields_get_iff.mp hget
      refine fails_bind_iff.mpr (Or.inr ⟨_, _, yields_get_iff.mpr ⟨rfl, rfl⟩, ?_⟩)
      split at hwrite
      · cases hwrite
      · rename_i cause herror
        rw [write_eq_error_congr herror c']
        exact hwrite

/-- **Writing a file with its directories.** The path was free, and afterwards the file stands at its end,
directories stand along the way, and everywhere else is what was there before. -/
theorem save_spec (hroot : p.root ≠ []) (hup : Path.up ∉ p.parts) (h : Yields (save cwd p c) t () t') :
    t.HasFile p c t' := by
  obtain ⟨_, t₁, hmake, hwrite⟩ := yields_bind_iff.mp h
  have hdirs : t.HasDirs p.parent t₁ :=
    makeDirs_spec (p := p.parent) hroot (fun hmem => hup (List.dropLast_subset _ hmem)) hmake
  have hdirNodes : t₁.nodeAt = withDirs t.nodeAt p.parts.dropLast := hdirs.nodes
  obtain ⟨hleads, hnodir, hcan, rfl⟩ := (write_eq_ok_iff hroot hup).mp (yields_writeFile_iff.mp hwrite)
  have haccess := access_put_fileFor (c := c) hleads.dirs hnodir hcan
  obtain ⟨r, hfile⟩ := exists_fileFor t₁ p.parts c
  have hne : p.parts ≠ [] := by
    intro hnil
    rw [hdirNodes, hnil] at hnodir
    exact hnodir rfl
  have hlast : t₁.nodeAt p.parts = t.nodeAt p.parts := by
    rw [hdirNodes, withDirs, if_neg fun hpre => ((prefix_dropLast_iff hne).mp hpre).2 rfl]
  rw [hlast] at hnodir
  refine ⟨⟨fun q hq hq' => hdirs.could.passable q ((prefix_dropLast_iff hne).mpr ⟨hq, hq'⟩), hnodir⟩,
    ⟨hdirs.access ▸ hleads.follows, hdirs.access ▸ hcan⟩, ?_, haccess.trans hdirs.access,
    fun hd => (hdirs.distinct hd).put (hfile ▸ .file) _⟩
  funext q
  rw [nodeAt_put hleads.dirs, withFile, hfile]
  by_cases heq : q = p.parts
  · simp [heq, node]
  · rw [if_neg heq]
    by_cases hbelow : p.parts <+: q
    · -- Nothing stands below a file, and nothing stood there before.
      obtain ⟨rest, rfl⟩ := hbelow
      cases rest with
      | nil => exact absurd (List.append_nil _) heq
      | cons r rest =>
        have hbefore : t.nodeAt (p.parts ++ r :: rest) = none := by
          cases hn : t.nodeAt (p.parts ++ r :: rest) with
          | none => rfl
          | some n => exact absurd (nodeAt_eq_dir_of_below hn) hnodir
        rw [if_pos (List.prefix_append _ _), if_neg (not_append_isPrefix _ (List.cons_ne_nil r rest)),
          List.drop_left, hbefore, nodeAt_file_cons]
    · rw [if_neg hbelow, hdirNodes, withDirs]
      simp only [prefix_dropLast_iff hne, heq, ne_eq, not_false_eq_true, and_true]

/-- Where a file can be written, its directory stands or can be made. -/
theorem CanWrite.makeParent (h : CanWrite t.access p) (hne : p.parts ≠ []) (hfree : Free t.nodeAt p.parts) :
    t.CanMake p.parent := by
  refine ⟨fun q hq => ?_, h.toFollows.of_isPrefix (List.dropLast_prefix p.parts), fun hnone => ?_⟩
  · obtain ⟨hpre, hq'⟩ := (prefix_dropLast_iff hne).mp hq
    exact hfree.no_file q hpre hq'
  · have hwrite := access_write_of_none hnone [p.parts.getLast hne]
    rw [Path.parent, List.dropLast_append_getLast hne] at hwrite
    exact hwrite.symm.trans h.write

/-- A file can be saved where it has room and the rights allow it. -/
theorem exists_save (cwd : Path) (hroot : p.root ≠ []) (hup : Path.up ∉ p.parts) (hne : p.parts ≠ [])
    (hfree : Free t.nodeAt p.parts) (h : CanWrite t.access p) (c : Bytes) :
    ∃ t', Yields (save cwd p c) t () t' := by
  have hup' : Path.up ∉ p.parent.parts := fun hmem => hup (List.dropLast_subset _ hmem)
  obtain ⟨t₁, hmake⟩ := exists_makeDirs cwd (p := p.parent) hroot hup' (h.makeParent hne hfree)
  have hdirs : t.HasDirs p.parent t₁ := makeDirs_spec (p := p.parent) hroot hup' hmake
  have hdirNodes : t₁.nodeAt = withDirs t.nodeAt p.parts.dropLast := hdirs.nodes
  have hwrite : t₁.write p c cwd = .ok (t₁.put p.parts (t₁.fileFor p.parts c)) := by
    refine (write_eq_ok_iff hroot hup).mpr ⟨⟨fun q hq hq' => ?_, hdirs.access ▸ h.toFollows⟩, ?_,
      hdirs.access ▸ h.write, rfl⟩
    · rw [hdirNodes, withDirs, if_pos ((prefix_dropLast_iff hne).mpr ⟨hq, hq'⟩)]
    · rw [hdirNodes, withDirs, if_neg fun hpre => ((prefix_dropLast_iff hne).mp hpre).2 rfl]
      exact hfree.no_dir
  exact ⟨_, yields_bind_iff.mpr ⟨(), t₁, hmake, yields_writeFile_iff.mpr hwrite⟩⟩

/-! ### Finding again -/

/-- A path can still be followed after directories were added. -/
theorem settle_of_dirs
    (h : ∀ q es r, t.find q = .ok (.dir es r) → ∃ es', t'.find q = .ok (.dir es' r))
    {gone ps names : List RawText} (hsettle : t.settle gone ps = .ok names) :
    t'.settle gone ps = .ok names := by
  induction ps generalizing gone with
  | nil => exact hsettle
  | cons n ps ih =>
    rw [settle] at hsettle ⊢
    split at hsettle
    · rename_i es r hfind
      obtain ⟨es', hfind'⟩ := h gone es r hfind
      rw [hfind']
      dsimp only
      split at hsettle
      · cases hsettle
      · rename_i hsearch
        rw [if_neg hsearch]
        split at hsettle
        · cases hsettle
        · rename_i hshort
          rw [if_neg hshort]
          exact ih hsettle
    · cases hsettle
    · cases hsettle

/-- A path that leads somewhere leads there again when all directories are still there. -/
theorem follow_of_dirs
    (h : ∀ q es r, t.find q = .ok (.dir es r) → ∃ es', t'.find q = .ok (.dir es' r))
    {names : List RawText} (hfollow : t.follow p cwd = .ok names) : t'.follow p cwd = .ok names := by
  rw [follow] at hfollow ⊢
  split at hfollow
  · cases hfollow
  · exact settle_of_dirs h hfollow

/-- Wherever a path leads, writing puts a file into a directory, and not in the place of a directory. -/
theorem exists_of_write (h : t.write p c cwd = .ok t') :
    ∃ names r, t.follow p cwd = .ok names ∧ t.nodeAt names ≠ some .dir ∧
      (∀ q, q <+: names → q ≠ names → t.nodeAt q = some .dir) ∧ t' = t.put names (.file c r) := by
  obtain ⟨names, hfollow, hput⟩ := exists_of_bind_eq_ok h
  split at hput
  · cases hput
  · rename_i b r hfind
    split at hput
    · have hnode : t.nodeAt names = some (.file b) := nodeAt_eq_file_iff.mpr ⟨r, hfind⟩
      refine ⟨names, r, hfollow, by simp [hnode], fun q hq hne => ?_, (Except.ok.inj hput).symm⟩
      exact nodeAt_eq_dir_of_isPrefix hnode hq hne
    · cases hput
  · rename_i hfind
    rw [add] at hput
    split at hput
    · rename_i es r hparent
      split at hput
      · have hnone : t.nodeAt names = none := nodeAt_eq_none_iff.mpr ⟨_, hfind⟩
        have hdir : t.nodeAt names.dropLast = some .dir := nodeAt_eq_dir_iff.mpr ⟨es, r, hparent⟩
        refine ⟨names, {}, hfollow, by simp [hnone], fun q hq hne => ?_, (Except.ok.inj hput).symm⟩
        have hne' : names ≠ [] := by
          rintro rfl
          cases hfind
        by_cases heq : q = names.dropLast
        · rw [heq, hdir]
        · exact nodeAt_eq_dir_of_isPrefix hdir ((prefix_dropLast_iff hne').mpr ⟨hq, hne⟩) heq
      · cases hput
    · cases hput
    · cases hput
  · cases hput

/-- **What was written is found again.** -/
theorem look_of_write (h : t.write p c cwd = .ok t') : ∃ r, t'.look p cwd = .ok (.file c r) := by
  obtain ⟨names, r, hfollow, hnodir, hdirs, rfl⟩ := exists_of_write h
  have hkeep : ∀ q es r', t.find q = .ok (.dir es r') →
      ∃ es', (t.put names (.file c r)).find q = .ok (.dir es' r') := by
    intro q es r' hq
    refine find_put_dir hdirs hq fun hpre => ?_
    have hdir : t.nodeAt q = some .dir := nodeAt_eq_dir_iff.mpr ⟨es, r', hq⟩
    by_cases heq : names = q
    · exact hnodir (heq ▸ hdir)
    · exact hnodir (nodeAt_eq_dir_of_isPrefix hdir hpre heq)
  have hfile : (t.put names (.file c r)).nodeAt names = some (.file c) := by
    rw [nodeAt_put hdirs, if_pos (List.prefix_refl names), List.drop_length]
    rfl
  obtain ⟨r', hfind⟩ := nodeAt_eq_file_iff.mp hfile
  refine ⟨r', ?_⟩
  simp only [look, follow_of_dirs hkeep hfollow, bind, Except.bind, hfind]

end Files

end DocMark.FileTree
