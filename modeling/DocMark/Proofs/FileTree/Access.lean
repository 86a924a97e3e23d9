import DocMark.Proofs.FileTree.Nodes

/-!
What the system lets programs do at a path.

The rights at a path (`access`) are those of the node there, together with the search rights of the directories on
the way. Where nothing stands yet, they are the rights there will be: new nodes have all rights, and the first of
them needs a directory that lets entries be added.

Programs that make directories and write files do not change these rights (`access_put`), so that all that can be
refused is known before the first write: `Follows`, `CanRead` and `CanWrite`.
-/

namespace DocMark.FileTree

/-- The rights at the end of a list of names. -/
def access : FileTree → List RawText → Rights
  | t, [] => { t.rights with search := true }
  | .file _ r, _ :: _ => { write := r.write }
  | .dir es r, p :: ps =>
    match es.lookup p with
    | some t => { access t ps with search := r.search && (access t ps).search }
    | none => { write := r.write, search := r.search }

section Access

variable {t leaf : FileTree} {ps : List RawText}

theorem access_dir_cons (es : List (RawText × FileTree)) (r : Rights) (p : RawText) (ps : List RawText) :
    (FileTree.dir es r).access (p :: ps) =
      match es.lookup p with
      | some t => { t.access ps with search := r.search && (t.access ps).search }
      | none => { write := r.write, search := r.search } := rfl

theorem access_file (b c : Bytes) (r : Rights) : (FileTree.file b r).access = (FileTree.file c r).access := by
  funext ps
  cases ps <;> rfl

/-- A path can be searched when all directories on the way let it through. -/
theorem access_search_iff :
    (t.access ps).search = true ↔
      ∀ q, q <+: ps → q ≠ ps → ∀ es r, t.find q = .ok (.dir es r) → r.search = true := by
  induction ps generalizing t with
  | nil =>
    refine iff_of_true rfl fun q hq hne => ?_
    exact absurd (List.prefix_nil.mp hq) hne
  | cons p ps ih =>
    cases t with
    | file b r =>
      refine iff_of_true rfl fun q hq hne es r hfind => ?_
      cases q <;> cases hfind
    | dir es r =>
      rw [access_dir_cons]
      constructor
      · intro h q hq hne es' r' hfind
        rcases List.prefix_cons_iff.mp hq with rfl | ⟨rest, rfl, hrest⟩
        · rw [find] at hfind
          cases hfind
          cases hp : es.lookup p with
          | none => simpa [hp] using h
          | some u =>
            rw [hp] at h
            exact (Bool.and_eq_true_iff.mp h).1
        · rw [find] at hfind
          cases hp : es.lookup p with
          | none => simp [hp] at hfind
          | some u =>
            rw [hp] at h hfind
            exact ih.mp (Bool.and_eq_true_iff.mp h).2 rest hrest (by simpa using hne) es' r' hfind
      · intro h
        have hr : r.search = true := h [] List.nil_prefix (by simp) es r rfl
        cases hp : es.lookup p with
        | none => exact hr
        | some u =>
          refine Bool.and_eq_true_iff.mpr ⟨hr, ih.mpr fun q hq hne es' r' hfind => ?_⟩
          refine h (p :: q) (List.cons_prefix_cons.mpr ⟨rfl, hq⟩) (by simpa using hne) es' r' ?_
          rw [find, hp]
          exact hfind

/-- If the way to a path can be searched, so can the way to any path before it. -/
theorem access_search_of_isPrefix {q : List RawText} (h : (t.access ps).search = true) (hq : q <+: ps) :
    (t.access q).search = true := by
  refine access_search_iff.mpr fun q' hq' hne => access_search_iff.mp h q' (hq'.trans hq) ?_
  rintro rfl
  exact hne (hq'.eq_of_length_le hq.length_le)

/-- Below a node, reading and writing are up to the tree from there on. -/
theorem access_append_of_find {u : FileTree} (h : t.find ps = .ok u) (qs : List RawText) :
    (t.access (ps ++ qs)).read = (u.access qs).read ∧ (t.access (ps ++ qs)).write = (u.access qs).write := by
  induction ps generalizing t with
  | nil =>
    rw [find] at h
    rw [Except.ok.inj h, List.nil_append]
    exact ⟨rfl, rfl⟩
  | cons p ps ih =>
    cases t with
    | file b r => cases h
    | dir es r =>
      rw [find] at h
      rw [List.cons_append, access_dir_cons]
      cases hp : es.lookup p with
      | none => simp [hp] at h
      | some v =>
        rw [hp] at h
        exact ih h

theorem access_of_find {u : FileTree} (h : t.find ps = .ok u) :
    (t.access ps).read = u.rights.read ∧ (t.access ps).write = u.rights.write := by
  have hps := access_append_of_find h []
  rwa [List.append_nil] at hps

/-- What does not stand there yet will be readable. -/
theorem access_read_of_none (h : t.nodeAt ps = none) : (t.access ps).read = true := by
  induction ps generalizing t with
  | nil => simp at h
  | cons p ps ih =>
    cases t with
    | file b r => rfl
    | dir es r =>
      rw [nodeAt_dir_cons] at h
      rw [access_dir_cons]
      cases hp : es.lookup p with
      | none => rfl
      | some u =>
        rw [hp] at h
        exact ih h

/-- Whether something can be added below a path where nothing stands does not depend on how far below. -/
theorem access_write_of_none (h : t.nodeAt ps = none) (qs : List RawText) :
    (t.access (ps ++ qs)).write = (t.access ps).write := by
  induction ps generalizing t with
  | nil => simp at h
  | cons p ps ih =>
    cases t with
    | file b r => rfl
    | dir es r =>
      rw [nodeAt_dir_cons] at h
      rw [List.cons_append, access_dir_cons, access_dir_cons]
      cases hp : es.lookup p with
      | none => rfl
      | some u =>
        rw [hp] at h
        exact ih h

/-- A name that is missing in a directory can be added as the directory allows. -/
theorem access_write_of_missing {es : List (RawText × FileTree)} {r : Rights} (hne : ps ≠ [])
    (hparent : t.find ps.dropLast = .ok (.dir es r)) (h : t.nodeAt ps = none) :
    (t.access ps).write = r.write := by
  obtain ⟨front, last, rfl⟩ : ∃ front last, ps = front ++ [last] :=
    ⟨ps.dropLast, ps.getLast hne, (List.dropLast_append_getLast hne).symm⟩
  rw [List.dropLast_concat] at hparent
  rw [nodeAt_append_of_find hparent, nodeAt_dir_cons] at h
  rw [(access_append_of_find hparent [last]).2, access_dir_cons]
  cases hlast : es.lookup last with
  | none => rfl
  | some u => simp [hlast] at h

/-- **Writing does not change what may be done.** A node takes the place of one with the same rights, or it is new,
has all rights, and stands where something can be added. -/
theorem access_put (hdirs : ∀ q, q <+: ps → q ≠ ps → t.nodeAt q = some .dir)
    (h : (∃ u, t.find ps = .ok u ∧ leaf.access = u.access) ∨
      t.nodeAt ps = none ∧ (t.access ps).write = true ∧ ∀ q, leaf.access q = {}) :
    (t.put ps leaf).access = t.access := by
  induction ps generalizing t with
  | nil =>
    rw [put]
    rcases h with ⟨u, hu, heq⟩ | ⟨hnone, -⟩
    · rw [heq, Except.ok.inj hu]
    · simp at hnone
  | cons p ps ih =>
    cases t with
    | file b r => exact absurd (hdirs [] List.nil_prefix (by simp)) (by simp [node])
    | dir es r =>
      funext q
      cases q with
      | nil => rfl
      | cons x q =>
        rw [put, access_dir_cons, access_dir_cons, lookup_setEntry]
        by_cases hx : x = p
        · subst hx
          rw [if_pos rfl]
          cases hlook : es.lookup x with
          | some u =>
            have hput : (u.put ps leaf).access = u.access := by
              refine ih (fun q hq hne => ?_) ?_
              · have hdir := hdirs (x :: q) (List.cons_prefix_cons.mpr ⟨rfl, hq⟩) (by simpa using hne)
                rwa [nodeAt_dir_cons, hlook] at hdir
              · simpa only [find, nodeAt_dir_cons, access_dir_cons, hlook, Option.bind_some] using h
            simp only [Option.getD_some, hput]
          | none =>
            -- Only the last name of the path is missing.
            have hps : ps = [] := by
              by_contra hne
              have hdir := hdirs [x] ⟨ps, rfl⟩ (by simpa using Ne.symm hne)
              simp [nodeAt_dir_cons, hlook] at hdir
            rcases h with ⟨u, hu, -⟩ | ⟨-, hwrite, hleaf⟩
            · simp [find, hlook] at hu
            · rw [access_dir_cons, hlook] at hwrite
              simp only [hps, put, hleaf, Bool.and_true]
              rw [show r.write = true from hwrite]
        · rw [if_neg hx]

end Access

/-! ### What may be done -/

/-- No name is longer than directories allow. -/
def ShortNames (ps : List RawText) : Prop := ∀ n ∈ ps, isTooLong n = false

instance (ps : List RawText) : Decidable (ShortNames ps) :=
  inferInstanceAs (Decidable (∀ n ∈ ps, isTooLong n = false))

/-- The system lets a path be followed: it can be handed over, it is not too long, and every directory on the way
lets it through. -/
structure Follows (rights : List RawText → Rights) (p : Path) : Prop where
  accepted : refused? p = none
  short : ShortNames p.parts
  search : (rights p.parts).search = true

/-- A node at the end of the path can be read or listed. -/
structure CanRead (rights : List RawText → Rights) (p : Path) : Prop extends Follows rights p where
  read : (rights p.parts).read = true

/-- A file can be written at the end of the path, perhaps after directories were made for it. -/
structure CanWrite (rights : List RawText → Rights) (p : Path) : Prop extends Follows rights p where
  write : (rights p.parts).write = true

section Follows

variable {rights : List RawText → Rights} {p : Path}

/-- A path can be followed if it is not refused, its names are short, and the way can be searched. -/
theorem follows_iff : Follows rights p ↔
    refused? p = none ∧ ShortNames p.parts ∧ (rights p.parts).search = true :=
  ⟨fun h => ⟨h.accepted, h.short, h.search⟩, fun h => ⟨h.1, h.2.1, h.2.2⟩⟩

instance : Decidable (Follows rights p) := decidable_of_iff' _ follows_iff

instance : Decidable (CanRead rights p) :=
  decidable_of_iff (Follows rights p ∧ (rights p.parts).read = true)
    ⟨fun h => ⟨h.1, h.2⟩, fun h => ⟨h.toFollows, h.read⟩⟩

instance : Decidable (CanWrite rights p) :=
  decidable_of_iff (Follows rights p ∧ (rights p.parts).write = true)
    ⟨fun h => ⟨h.1, h.2⟩, fun h => ⟨h.toFollows, h.write⟩⟩

theorem refused?_eq_none_iff : refused? p = none ↔ p.hasNull = false ∧ p.size ≤ 4096 := by
  unfold refused?
  split
  · simp_all
  · split
    · simp_all
    · simp_all

theorem size_le_append (root : Text) (q rest : List RawText) :
    Path.size ⟨root, q⟩ ≤ Path.size ⟨root, q ++ rest⟩ := by
  induction q with
  | nil => simp [Path.size]
  | cons n q ih =>
    simp only [Path.size, List.cons_append, List.foldr_cons] at ih ⊢
    omega

/-- What leads to a path can be followed if the path can. -/
theorem Follows.of_isPrefix {t : FileTree} {root : Text} {q ps : List RawText}
    (h : Follows t.access ⟨root, ps⟩) (hq : q <+: ps) : Follows t.access ⟨root, q⟩ := by
  refine ⟨?_, fun n hn => h.short n (hq.subset hn), access_search_of_isPrefix h.search hq⟩
  obtain ⟨rest, rfl⟩ := hq
  have haccepted := refused?_eq_none_iff.mp h.accepted
  refine refused?_eq_none_iff.mpr ⟨?_, ?_⟩
  · have hnull := haccepted.1
    simp only [Path.hasNull, List.any_append, Bool.or_eq_false_iff] at hnull
    exact hnull.1
  · exact Nat.le_trans (size_le_append root q rest) haccepted.2

end Follows

end DocMark.FileTree
