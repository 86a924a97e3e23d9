import DocMark.Proofs.FileTree.Access

/-!
File operations by what stands at each path and what may be done there.

Paths are absolute and hold no `..`. For them an operation succeeds exactly when there are directories all
along the way (`Leads`), the right thing, or nothing, stands at the end, and the system allows it:
`look_eq_ok_iff`, `list_eq_ok_iff`, `read_eq_ok_iff`, `hasDir_iff`, `write_eq_ok_iff` and `makeDir_eq_ok_iff`.
-/

namespace DocMark.FileTree

/-- A path can be followed up to its last name: there are directories all along the way, and the system lets
it through. -/
structure Leads (t : FileTree) (p : Path) : Prop where
  dirs : ∀ q, q <+: p.parts → q ≠ p.parts → t.nodeAt q = some .dir
  follows : Follows t.access p

/-! ### Following a path -/

/-- Without steps to the parent, short names settle exactly if the directories on the way can be searched. -/
theorem settle_eq_ok_iff {t : FileTree} {gone ps names : List RawText} (hup : Path.up ∉ ps) :
    t.settle gone ps = .ok names ↔
      names = gone ++ ps ∧
        (∀ q, q <+: ps → q ≠ ps → ∃ es r, t.find (gone ++ q) = .ok (.dir es r) ∧ r.search = true) ∧
        ShortNames ps := by
  induction ps generalizing gone with
  | nil =>
    rw [settle, Except.ok.injEq, List.append_nil]
    constructor
    · rintro rfl
      refine ⟨rfl, fun q hq hne => absurd (List.prefix_nil.mp hq) hne, by simp [ShortNames]⟩
    · exact fun h => h.1.symm
  | cons p ps ih =>
    have hp : p ≠ Path.up := fun heq => hup (heq ▸ List.mem_cons_self)
    have hcons : gone ++ [p] ++ ps = gone ++ p :: ps := by simp
    rw [settle]
    constructor
    · intro h
      split at h
      · rename_i es r hdir
        split at h
        · cases h
        · rename_i hsearch
          split at h
          · cases h
          · rename_i hshort
            rw [ih fun hmem => hup (List.mem_cons_of_mem p hmem), hcons] at h
            obtain ⟨rfl, hdirs, hnames⟩ := h
            refine ⟨rfl, ?_, ?_⟩
            · intro q hq hne
              rcases List.prefix_cons_iff.mp hq with rfl | ⟨rest, rfl, hrest⟩
              · rw [List.append_nil]
                exact ⟨es, r, hdir, by simpa using hsearch⟩
              · have hbelow := hdirs rest hrest (by simpa using hne)
                rwa [List.append_assoc] at hbelow
            · exact List.forall_mem_cons.mpr ⟨by simpa using hshort, hnames⟩
      · cases h
      · cases h
    · rintro ⟨rfl, hdirs, hnames⟩
      obtain ⟨es, r, hes, hsearch⟩ := hdirs [] List.nil_prefix (by simp)
      rw [List.append_nil] at hes
      obtain ⟨hshort, hnames⟩ := List.forall_mem_cons.mp hnames
      simp only [hes, hsearch, hshort, Bool.not_true, Bool.false_eq_true, if_false, if_neg hp]
      rw [ih fun hmem => hup (List.mem_cons_of_mem p hmem)]
      refine ⟨hcons.symm, ?_, hnames⟩
      intro q hq hne
      rw [List.append_assoc]
      exact hdirs (p :: q) (List.cons_prefix_cons.mpr ⟨rfl, hq⟩) (by simpa using hne)

/-- Where no file, no long name and no closed directory is in the way, a path fails to lead on only for want of
a directory. -/
theorem settle_eq_error {t : FileTree} {gone ps : List RawText} {e : FileCause} (hup : Path.up ∉ ps)
    (hshort : ShortNames ps)
    (hfile : ∀ q, q <+: gone ++ ps → q ≠ gone ++ ps → ∀ b, t.nodeAt q ≠ some (.file b))
    (hsearch : (t.access (gone ++ ps)).search = true)
    (h : t.settle gone ps = .error e) : e = .notFound := by
  induction ps generalizing gone with
  | nil => cases h
  | cons p ps ih =>
    have hp : p ≠ Path.up := fun heq => hup (heq ▸ List.mem_cons_self)
    have hgone : gone <+: gone ++ p :: ps := List.prefix_append gone _
    have hne : ∀ q, q <+: gone → q ≠ gone ++ p :: ps := by
      rintro q hq rfl
      exact not_append_isPrefix gone (List.cons_ne_nil p ps) hq
    rw [settle] at h
    split at h
    · rename_i es r hdir
      rw [access_search_iff.mp hsearch gone hgone (hne gone (List.prefix_refl gone)) es r hdir,
        (List.forall_mem_cons.mp hshort).1, if_neg hp] at h
      refine ih (fun hmem => hup (List.mem_cons_of_mem p hmem)) (List.forall_mem_cons.mp hshort).2 ?_ ?_ h
      · simpa using hfile
      · simpa using hsearch
    · rename_i b r hb
      exact absurd (nodeAt_eq_file_iff.mpr ⟨r, hb⟩)
        (hfile gone hgone (hne gone (List.prefix_refl gone)) b)
    · rename_i e' he
      obtain rfl := Except.error.inj h
      rcases find_eq_error he with hnot | ⟨q, b, hq, -, hb⟩
      · exact hnot
      · exact absurd hb (hfile q (hq.trans hgone) (hne q hq) b)

section Follow

variable {t : FileTree} {cwd p : Path}

/-- An absolute path that is not refused is followed from the top. -/
theorem follow_of_accepted (hroot : p.root ≠ []) (h : refused? p = none) :
    t.follow p cwd = t.settle [] p.parts := by
  have habs : p.isAbsolute = true := by simpa [Path.isAbsolute] using hroot
  rw [follow, h, habs]
  rfl

/-- An absolute path without steps to the parent leads to its own parts. -/
theorem follow_eq_ok_iff (hroot : p.root ≠ []) (hup : Path.up ∉ p.parts) {names : List RawText} :
    t.follow p cwd = .ok names ↔ names = p.parts ∧ t.Leads p := by
  cases haccepted : refused? p with
  | some e =>
    rw [follow, haccepted]
    refine iff_of_false (by simp) ?_
    rintro ⟨-, hleads⟩
    rw [hleads.follows.accepted] at haccepted
    cases haccepted
  | none =>
    rw [follow_of_accepted hroot haccepted, settle_eq_ok_iff hup]
    simp only [List.nil_append]
    refine and_congr_right fun _ => ⟨?_, ?_⟩
    · rintro ⟨hdirs, hshort⟩
      refine ⟨fun q hq hne => ?_, haccepted, hshort, access_search_iff.mpr fun q hq hne es r hfind => ?_⟩
      · obtain ⟨es, r, hfind, -⟩ := hdirs q hq hne
        exact nodeAt_eq_dir_iff.mpr ⟨es, r, hfind⟩
      · obtain ⟨es', r', hfind', hsearch⟩ := hdirs q hq hne
        cases hfind.symm.trans hfind'
        exact hsearch
    · intro h
      refine ⟨fun q hq hne => ?_, h.follows.short⟩
      obtain ⟨es, r, hfind⟩ := nodeAt_eq_dir_iff.mp (h.dirs q hq hne)
      exact ⟨es, r, hfind, access_search_iff.mp h.follows.search q hq hne es r hfind⟩

theorem Leads.of_nodeAt {n : Node} (h : t.nodeAt p.parts = some n) (hfollows : Follows t.access p) :
    t.Leads p :=
  ⟨fun _ hq hne => nodeAt_eq_dir_of_isPrefix h hq hne, hfollows⟩

/-- At the end of a path that leads on stands a node, or its last name is missing in a directory. -/
theorem Leads.find (h : t.Leads p) :
    (∃ u, t.find p.parts = .ok u) ∨
      p.parts ≠ [] ∧ t.find p.parts = .error .notFound ∧
        ∃ es r, t.find p.parts.dropLast = .ok (.dir es r) := by
  cases hfind : t.find p.parts with
  | ok u => exact Or.inl ⟨u, rfl⟩
  | error e =>
    have he : e = .notFound := by
      rcases find_eq_error hfind with he | ⟨q, b, hq, hne, hb⟩
      · exact he
      · exact absurd (hb.symm.trans (h.dirs q hq hne)) (by simp)
    have hne : p.parts ≠ [] := by
      intro hnil
      rw [hnil] at hfind
      cases hfind
    refine Or.inr ⟨hne, by rw [he], nodeAt_eq_dir_iff.mp (h.dirs _ (List.dropLast_prefix p.parts) ?_)⟩
    intro heq
    have hlen := congrArg List.length heq
    rw [List.length_dropLast] at hlen
    have hpos := List.length_pos_of_ne_nil hne
    omega

end Follow

/-! ### The operations -/

section Operations

variable {t : FileTree} {cwd p : Path}

/-- A path can be looked up exactly if a node is there and the path can be followed. -/
theorem look_eq_ok_iff (hroot : p.root ≠ []) (hup : Path.up ∉ p.parts) {u : FileTree} :
    t.look p cwd = .ok u ↔ t.find p.parts = .ok u ∧ Follows t.access p := by
  unfold look
  cases hfollow : t.follow p cwd with
  | error e =>
    simp only [bind, Except.bind, reduceCtorEq, false_iff]
    rintro ⟨hfind, hfollows⟩
    have hnode : t.nodeAt p.parts = some u.node := by rw [nodeAt, hfind]; rfl
    rw [(follow_eq_ok_iff hroot hup).mpr ⟨rfl, .of_nodeAt hnode hfollows⟩] at hfollow
    cases hfollow
  | ok names =>
    obtain ⟨rfl, hleads⟩ := (follow_eq_ok_iff hroot hup).mp hfollow
    simp [bind, Except.bind, hleads.follows]

/-- Reading is looking up a file that may be read. -/
theorem read_eq_ok_iff_look {b : Bytes} :
    t.read p cwd = .ok b ↔ ∃ r, t.look p cwd = .ok (.file b r) ∧ r.read = true := by
  unfold read
  cases t.look p cwd with
  | error e => simp [bind, Except.bind]
  | ok u =>
    cases u with
    | dir es r => simp [bind, Except.bind]
    | file c r => cases hread : r.read <;> simp [bind, Except.bind, hread]

/-- Listing is looking up a directory that may be read. -/
theorem list_eq_ok_iff_look {es : List (RawText × FileTree)} :
    t.list p cwd = .ok es ↔ ∃ r, t.look p cwd = .ok (.dir es r) ∧ r.read = true := by
  unfold list
  cases t.look p cwd with
  | error e => simp [bind, Except.bind]
  | ok u =>
    cases u with
    | file b r => simp [bind, Except.bind]
    | dir es' r => cases hread : r.read <;> simp [bind, Except.bind, hread]

theorem canRead_iff {u : FileTree} (h : t.find p.parts = .ok u) :
    CanRead t.access p ↔ Follows t.access p ∧ u.rights.read = true := by
  rw [← (access_of_find h).1]
  exact ⟨fun hread => ⟨hread.toFollows, hread.read⟩, fun hread => ⟨hread.1, hread.2⟩⟩

/-- A path can be read exactly if a file is there and the rights allow it. -/
theorem read_eq_ok_iff (hroot : p.root ≠ []) (hup : Path.up ∉ p.parts) {b : Bytes} :
    t.read p cwd = .ok b ↔ t.nodeAt p.parts = some (.file b) ∧ CanRead t.access p := by
  rw [read_eq_ok_iff_look, nodeAt_eq_file_iff]
  constructor
  · rintro ⟨r, hlook, hread⟩
    obtain ⟨hfind, hfollows⟩ := (look_eq_ok_iff hroot hup).mp hlook
    exact ⟨⟨r, hfind⟩, (canRead_iff hfind).mpr ⟨hfollows, hread⟩⟩
  · rintro ⟨⟨r, hfind⟩, hread⟩
    obtain ⟨hfollows, hright⟩ := (canRead_iff hfind).mp hread
    exact ⟨r, (look_eq_ok_iff hroot hup).mpr ⟨hfind, hfollows⟩, hright⟩

/-- A path can be listed exactly if a directory is there and the rights allow it. -/
theorem list_eq_ok_iff (hroot : p.root ≠ []) (hup : Path.up ∉ p.parts) {es : List (RawText × FileTree)} :
    t.list p cwd = .ok es ↔ (∃ r, t.find p.parts = .ok (.dir es r)) ∧ CanRead t.access p := by
  rw [list_eq_ok_iff_look]
  constructor
  · rintro ⟨r, hlook, hread⟩
    obtain ⟨hfind, hfollows⟩ := (look_eq_ok_iff hroot hup).mp hlook
    exact ⟨⟨r, hfind⟩, (canRead_iff hfind).mpr ⟨hfollows, hread⟩⟩
  · rintro ⟨⟨r, hfind⟩, hread⟩
    obtain ⟨hfollows, hright⟩ := (canRead_iff hfind).mp hread
    exact ⟨r, (look_eq_ok_iff hroot hup).mpr ⟨hfind, hfollows⟩, hright⟩

theorem hasDir_iff (hroot : p.root ≠ []) (hup : Path.up ∉ p.parts) :
    t.hasDir p cwd = true ↔ t.nodeAt p.parts = some .dir ∧ Follows t.access p := by
  rw [nodeAt_eq_dir_iff]
  unfold hasDir
  cases hlook : t.look p cwd with
  | error e =>
    simp only [Bool.false_eq_true, false_iff]
    rintro ⟨⟨es, r, hes⟩, hfollows⟩
    rw [(look_eq_ok_iff hroot hup).mpr ⟨hes, hfollows⟩] at hlook
    cases hlook
  | ok u =>
    obtain ⟨hfind, hfollows⟩ := (look_eq_ok_iff hroot hup).mp hlook
    rw [hfind]
    cases u <;> simp [isDir, hfollows]

/-- A node can be added where nothing stands and something can be written. -/
theorem add_eq_ok_iff {leaf t' : FileTree} (hne : p.parts ≠ []) {es : List (RawText × FileTree)} {r : Rights}
    (hparent : t.find p.parts.dropLast = .ok (.dir es r)) (hnone : t.nodeAt p.parts = none) :
    t.add p.parts leaf = .ok t' ↔ (t.access p.parts).write = true ∧ t' = t.put p.parts leaf := by
  rw [add, hparent, access_write_of_missing hne hparent hnone]
  cases hwrite : r.write <;> simp [hwrite, eq_comm (a := t')]

/-- What is written: a file that keeps the rights of the one before, or has all rights. -/
def fileFor (t : FileTree) (ps : List RawText) (c : Bytes) : FileTree :=
  match t.find ps with
  | .ok u => .file c u.rights
  | .error _ => .file c

/-- A file can be written where no directory stands. -/
theorem write_eq_ok_iff (hroot : p.root ≠ []) (hup : Path.up ∉ p.parts) {c : Bytes} {t' : FileTree} :
    t.write p c cwd = .ok t' ↔
      t.Leads p ∧ t.nodeAt p.parts ≠ some .dir ∧ (t.access p.parts).write = true ∧
        t' = t.put p.parts (t.fileFor p.parts c) := by
  unfold write
  cases hfollow : t.follow p cwd with
  | error e =>
    simp only [bind, Except.bind, reduceCtorEq, false_iff]
    rintro ⟨hleads, -⟩
    rw [(follow_eq_ok_iff hroot hup).mpr ⟨rfl, hleads⟩] at hfollow
    cases hfollow
  | ok names =>
    obtain ⟨rfl, hleads⟩ := (follow_eq_ok_iff hroot hup).mp hfollow
    simp only [bind, Except.bind, hleads, true_and, ne_eq, nodeAt_eq_dir_iff]
    rcases hleads.find with ⟨u, hu⟩ | ⟨hne, hnot, es, r, hes⟩
    · rw [(access_of_find hu).2, fileFor, hu]
      cases u with
      | dir es r => simp
      | file b r =>
        simp only [rights]
        cases r.write <;> simp [eq_comm (a := t')]
    · have hnone : t.nodeAt p.parts = none := nodeAt_eq_none_iff.mpr ⟨_, hnot⟩
      simp only [hnot, fileFor, add_eq_ok_iff hne hes hnone, reduceCtorEq, exists_false,
        not_false_eq_true, true_and]

/-- A directory can be made where nothing stands. -/
theorem makeDir_eq_ok_iff (hroot : p.root ≠ []) (hup : Path.up ∉ p.parts) {t' : FileTree} :
    t.makeDir p cwd = .ok t' ↔
      t.Leads p ∧ t.nodeAt p.parts = none ∧ (t.access p.parts).write = true ∧
        t' = t.put p.parts (.dir []) := by
  unfold makeDir
  cases hfollow : t.follow p cwd with
  | error e =>
    simp only [bind, Except.bind, reduceCtorEq, false_iff]
    rintro ⟨hleads, -⟩
    rw [(follow_eq_ok_iff hroot hup).mpr ⟨rfl, hleads⟩] at hfollow
    cases hfollow
  | ok names =>
    obtain ⟨rfl, hleads⟩ := (follow_eq_ok_iff hroot hup).mp hfollow
    simp only [bind, Except.bind, hleads, true_and]
    rcases hleads.find with ⟨u, hu⟩ | ⟨hne, hnot, es, r, hes⟩
    · simp [hu, nodeAt_eq_none_iff]
    · have hnone : t.nodeAt p.parts = none := nodeAt_eq_none_iff.mpr ⟨_, hnot⟩
      simp only [hnot, add_eq_ok_iff hne hes hnone, hnone, true_and]

end Operations

end DocMark.FileTree
