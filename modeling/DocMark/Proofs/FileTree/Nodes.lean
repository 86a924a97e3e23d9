import DocMark.FileTree.Listing
import Mathlib.Data.List.Nodup

/-!
A file tree seen by its paths.

What programs can tell about a tree is what stands at the end of each list of names: nothing, a directory,
or a file with its bytes (`nodeAt`). Changes of a tree are stated through this view:

* `nodeAt_put`: putting a node into a directory changes what stands at or below its path, and nothing
  else.
* `DistinctNames`: no directory has two entries of one name. Trees made from a listing have distinct names
  (`distinctNames_ofListing`), and putting a node keeps them distinct (`DistinctNames.put`).
* `Relisted`: the same tree with its directories listed in another order has the same nodes
  (`Relisted.nodeAt_eq`).
-/

namespace DocMark

/-- What stands at a path: a directory, or a file with its bytes. -/
inductive Node where
  | dir
  | file (content : Bytes)
deriving DecidableEq

namespace FileTree

def node : FileTree → Node
  | .dir _ _ => .dir
  | .file b _ => .file b

/-- What stands at the end of a list of names, if anything. -/
def nodeAt (t : FileTree) (ps : List RawText) : Option Node := (t.find ps).toOption.map node

@[simp] theorem nodeAt_nil (t : FileTree) : t.nodeAt [] = some t.node := by
  cases t <;> rfl

@[simp] theorem nodeAt_file_cons (b : Bytes) (r : Rights) (p : RawText) (ps : List RawText) :
    (FileTree.file b r).nodeAt (p :: ps) = none := rfl

theorem nodeAt_dir_cons (es : List (RawText × FileTree)) (r : Rights) (p : RawText) (ps : List RawText) :
    (FileTree.dir es r).nodeAt (p :: ps) = (es.lookup p).bind (·.nodeAt ps) := by
  rw [nodeAt, find]
  cases es.lookup p <;> rfl

theorem nodeAt_eq_none_iff {t : FileTree} {ps : List RawText} :
    t.nodeAt ps = none ↔ ∃ e, t.find ps = .error e := by
  rw [nodeAt]
  cases t.find ps <;> simp [Except.toOption]

theorem nodeAt_eq_dir_iff {t : FileTree} {ps : List RawText} :
    t.nodeAt ps = some .dir ↔ ∃ es r, t.find ps = .ok (.dir es r) := by
  rw [nodeAt]
  cases t.find ps with
  | error e => simp [Except.toOption]
  | ok u => cases u <;> simp [Except.toOption, node]

theorem nodeAt_eq_file_iff {t : FileTree} {ps : List RawText} {b : Bytes} :
    t.nodeAt ps = some (.file b) ↔ ∃ r, t.find ps = .ok (.file b r) := by
  rw [nodeAt]
  cases t.find ps with
  | error e => simp [Except.toOption]
  | ok u => cases u <;> simp [Except.toOption, node]

/-- A tree below a path is found from there on. -/
theorem find_append_of_find {t u : FileTree} {ps : List RawText} (h : t.find ps = .ok u)
    (qs : List RawText) : t.find (ps ++ qs) = u.find qs := by
  induction ps generalizing t with
  | nil =>
    rw [find] at h
    rw [Except.ok.inj h, List.nil_append]
  | cons p ps ih =>
    cases t with
    | file b r => cases h
    | dir es r =>
      rw [List.cons_append, find]
      rw [find] at h
      cases hp : es.lookup p with
      | none => simp [hp] at h
      | some v =>
        rw [hp] at h
        exact ih h

theorem nodeAt_append_of_find {t u : FileTree} {ps : List RawText} (h : t.find ps = .ok u)
    (qs : List RawText) : t.nodeAt (ps ++ qs) = u.nodeAt qs := by
  rw [nodeAt, find_append_of_find h, nodeAt]

/-- A path does not lead back to the directory above it. -/
theorem not_append_isPrefix (ps : List RawText) {rest : List RawText} (h : rest ≠ []) : ¬ ps ++ rest <+: ps := by
  intro hpre
  have hlen := hpre.length_le
  have hpos := List.length_pos_of_ne_nil h
  rw [List.length_append] at hlen
  omega

/-- **Only directories have something below them.** -/
theorem nodeAt_eq_dir_of_below {t : FileTree} {ps : List RawText} {p : RawText} {qs : List RawText} {n : Node}
    (h : t.nodeAt (ps ++ p :: qs) = some n) : t.nodeAt ps = some .dir := by
  induction ps generalizing t with
  | nil =>
    cases t with
    | file b r => cases h
    | dir es r => rfl
  | cons a ps ih =>
    cases t with
    | file b r => cases h
    | dir es r =>
      rw [List.cons_append, nodeAt_dir_cons] at h
      rw [nodeAt_dir_cons]
      obtain ⟨u, hu, hn⟩ := Option.bind_eq_some_iff.mp h
      rw [hu]
      exact ih hn

/-- Above anything there is a directory. -/
theorem nodeAt_eq_dir_of_isPrefix {t : FileTree} {ps qs : List RawText} {n : Node}
    (h : t.nodeAt qs = some n) (hpre : ps <+: qs) (hne : ps ≠ qs) : t.nodeAt ps = some .dir := by
  obtain ⟨rest, rfl⟩ := hpre
  cases rest with
  | nil => exact absurd (List.append_nil ps).symm hne
  | cons p rest => exact nodeAt_eq_dir_of_below h

/-- Why nothing is found: a name is missing in a directory, or the path leads through a file. -/
theorem find_eq_error {t : FileTree} {ps : List RawText} {e : FileCause} (h : t.find ps = .error e) :
    e = .notFound ∨ ∃ q b, q <+: ps ∧ q ≠ ps ∧ t.nodeAt q = some (.file b) := by
  induction ps generalizing t with
  | nil => cases h
  | cons p ps ih =>
    cases t with
    | file b r => exact Or.inr ⟨[], b, List.nil_prefix, by simp, rfl⟩
    | dir es r =>
      rw [find] at h
      cases hp : es.lookup p with
      | none =>
        rw [hp] at h
        exact Or.inl (Except.error.inj h).symm
      | some u =>
        rw [hp] at h
        rcases ih h with he | ⟨q, b, hpre, hne, hq⟩
        · exact Or.inl he
        · refine Or.inr ⟨p :: q, b, List.cons_prefix_cons.mpr ⟨rfl, hpre⟩, by simpa using hne, ?_⟩
          rw [nodeAt_dir_cons, hp]
          exact hq

/-! ### Putting a node -/

theorem lookup_cons_eq_ite (n : RawText) (e : RawText × FileTree) (es : List (RawText × FileTree)) :
    (e :: es).lookup n = if n = e.1 then some e.2 else es.lookup n := by
  rw [List.lookup_cons]
  by_cases h : n = e.1
  · simp [h]
  · have hne : (n == e.1) = false := by simpa using h
    rw [hne, if_neg h]

/-- Setting an entry changes what one name leads to. -/
theorem lookup_setEntry (name n : RawText) (t : FileTree) (es : List (RawText × FileTree)) :
    (setEntry name t es).lookup n = if n = name then some t else es.lookup n := by
  induction es with
  | nil => rw [setEntry, lookup_cons_eq_ite]
  | cons e es ih =>
    rw [setEntry]
    split
    · rename_i he
      rw [lookup_cons_eq_ite, lookup_cons_eq_ite, he]
      by_cases hn : n = name <;> simp [hn]
    · rename_i he
      rw [lookup_cons_eq_ite, lookup_cons_eq_ite, ih]
      by_cases hn : n = name
      · simp [hn, show ¬ name = e.1 from fun h => he h.symm]
      · simp [hn]

/-- Putting a node into a directory, seen by something that does not depend on the entries of a directory. -/
theorem map_find_put {α : Type} {f : FileTree → α} (hf : ∀ es es' r, f (.dir es r) = f (.dir es' r))
    {t leaf : FileTree} {ps : List RawText} (h : ∀ q, q <+: ps → q ≠ ps → t.nodeAt q = some .dir)
    (q : List RawText) :
    ((t.put ps leaf).find q).toOption.map f =
      if ps <+: q then (leaf.find (q.drop ps.length)).toOption.map f else (t.find q).toOption.map f := by
  induction ps generalizing t q with
  | nil => simp [put]
  | cons p ps ih =>
    cases t with
    | file b r => exact absurd (h [] List.nil_prefix (by simp)) (by simp [node])
    | dir es r =>
      cases q with
      | nil => simp [put, find, Except.toOption, hf _ es]
      | cons x q =>
        rw [put, find, find, lookup_setEntry]
        by_cases hx : x = p
        · subst hx
          rw [if_pos rfl]
          -- What stands on the way below `x` is in the entry of `x`, which exists unless `x` comes last.
          have hbelow : ∀ r, r <+: ps → r ≠ ps → ((es.lookup x).bind (·.nodeAt r)) = some .dir := by
            intro q hq hne
            rw [← nodeAt_dir_cons es r]
            exact h (x :: q) (List.cons_prefix_cons.mpr ⟨rfl, hq⟩) (by simpa using hne)
          dsimp only
          rw [ih]
          · simp only [List.cons_prefix_cons, true_and, List.length_cons, List.drop_succ_cons]
            cases hlook : es.lookup x with
            | some u => rfl
            | none =>
              have hps : ps = [] := by
                by_contra hne
                have hdir := hbelow [] List.nil_prefix (Ne.symm hne)
                rw [hlook] at hdir
                cases hdir
              simp [hps]
          · intro q hq hne
            have hdir := hbelow q hq hne
            obtain ⟨u, hu, hdir⟩ := Option.bind_eq_some_iff.mp hdir
            rw [hu]
            exact hdir
        · have hx' : ¬ p = x := fun heq => hx heq.symm
          simp only [hx, if_false, List.cons_prefix_cons, hx', false_and]

/-- **Putting a node into a directory.** At and below its path stands the node, and everywhere else what
stood there before. -/
theorem nodeAt_put {t leaf : FileTree} {ps : List RawText}
    (h : ∀ q, q <+: ps → q ≠ ps → t.nodeAt q = some .dir) (q : List RawText) :
    (t.put ps leaf).nodeAt q = if ps <+: q then leaf.nodeAt (q.drop ps.length) else t.nodeAt q :=
  map_find_put (fun _ _ _ => rfl) h q

/-- A directory away from a node that is put keeps its rights. -/
theorem find_put_dir {t leaf : FileTree} {ps q : List RawText} {es : List (RawText × FileTree)} {r : Rights}
    (h : ∀ q, q <+: ps → q ≠ ps → t.nodeAt q = some .dir) (hq : t.find q = .ok (.dir es r))
    (hpre : ¬ ps <+: q) : ∃ es', (t.put ps leaf).find q = .ok (.dir es' r) := by
  have hput : ((t.put ps leaf).find q).toOption.map (fun u => (u.node, u.rights)) = _ :=
    map_find_put (fun _ _ _ => rfl) h q
  rw [if_neg hpre, hq] at hput
  cases hfind : (t.put ps leaf).find q with
  | error e => simp [hfind, Except.toOption] at hput
  | ok u =>
    rw [hfind] at hput
    cases u with
    | file b r' => simp [Except.toOption, node] at hput
    | dir es' r' =>
      obtain rfl : r' = r := by simpa [Except.toOption, node, rights] using hput
      exact ⟨es', rfl⟩

/-! ### Distinct names -/

inductive DistinctNames : FileTree → Prop where
  | file {b : Bytes} {r : Rights} : DistinctNames (.file b r)
  | dir {es : List (RawText × FileTree)} {r : Rights} : (es.map Prod.fst).Nodup →
      (∀ e ∈ es, DistinctNames e.2) → DistinctNames (.dir es r)

/-- With distinct names, an entry is found exactly if it is there. -/
theorem lookup_eq_some_iff_mem {es : List (RawText × FileTree)} (h : (es.map Prod.fst).Nodup) {n : RawText}
    {t : FileTree} : es.lookup n = some t ↔ (n, t) ∈ es := by
  induction es with
  | nil => simp
  | cons e es ih =>
    rw [List.map_cons, List.nodup_cons] at h
    rw [lookup_cons_eq_ite, List.mem_cons]
    by_cases hn : n = e.1
    · subst hn
      rw [if_pos rfl, Option.some.injEq]
      constructor
      · rintro rfl
        exact Or.inl rfl
      · rintro (heq | hmem)
        · exact (congrArg Prod.snd heq).symm
        · exact absurd (List.mem_map_of_mem hmem) h.1
    · rw [if_neg hn, ih h.2]
      constructor
      · exact Or.inr
      · rintro (heq | hmem)
        · exact absurd (congrArg Prod.fst heq) hn
        · exact hmem

/-- The names of a directory with one entry set: the same ones, or one more at the end. -/
theorem map_fst_setEntry (name : RawText) (t : FileTree) (es : List (RawText × FileTree)) :
    (setEntry name t es).map Prod.fst =
      if name ∈ es.map Prod.fst then es.map Prod.fst else es.map Prod.fst ++ [name] := by
  induction es with
  | nil => simp [setEntry]
  | cons e es ih =>
    rw [setEntry]
    by_cases he : e.1 = name
    · simp [he]
    · have hne : ¬ name = e.1 := fun h => he h.symm
      rw [if_neg he, List.map_cons, ih, List.map_cons]
      simp only [List.mem_cons, hne, false_or]
      split <;> rfl

theorem mem_setEntry {name : RawText} {t : FileTree} {es : List (RawText × FileTree)} {e : RawText × FileTree}
    (h : e ∈ setEntry name t es) : e.2 = t ∨ e ∈ es := by
  induction es with
  | nil =>
    rw [setEntry, List.mem_singleton] at h
    exact Or.inl (congrArg Prod.snd h)
  | cons a es ih =>
    rw [setEntry] at h
    split at h
    · rcases List.mem_cons.mp h with h | h
      · exact Or.inl (congrArg Prod.snd h)
      · exact Or.inr (List.mem_cons_of_mem a h)
    · rcases List.mem_cons.mp h with h | h
      · exact Or.inr (List.mem_cons.mpr (Or.inl h))
      · exact (ih h).imp_right (List.mem_cons_of_mem a)

namespace DistinctNames

theorem empty {r : Rights} : DistinctNames (.dir [] r) := .dir List.nodup_nil (by simp)

theorem nodup {es : List (RawText × FileTree)} {r : Rights} (h : DistinctNames (.dir es r)) :
    (es.map Prod.fst).Nodup := by
  cases h with
  | dir hnodup _ => exact hnodup

theorem entry {es : List (RawText × FileTree)} {r : Rights} (h : DistinctNames (.dir es r)) {e : RawText × FileTree}
    (he : e ∈ es) : DistinctNames e.2 := by
  cases h with
  | dir _ hes => exact hes e he

theorem tail {e : RawText × FileTree} {es : List (RawText × FileTree)} {r : Rights}
    (h : DistinctNames (.dir (e :: es) r)) : DistinctNames (.dir es r) :=
  .dir (List.nodup_cons.mp h.nodup).2 fun _ hmem => h.entry (List.mem_cons_of_mem e hmem)

theorem setEntry {es : List (RawText × FileTree)} {r : Rights} (h : DistinctNames (.dir es r))
    (name : RawText) {t : FileTree} (ht : DistinctNames t) :
    DistinctNames (.dir (setEntry name t es) r) := by
  refine .dir ?_ fun e he => ?_
  · rw [map_fst_setEntry]
    split
    · exact h.nodup
    · rename_i hname
      exact List.nodup_append.mpr ⟨h.nodup, List.nodup_singleton name, fun a ha b hb heq =>
        hname (List.mem_singleton.mp hb ▸ heq ▸ ha)⟩
  · rcases mem_setEntry he with heq | hmem
    · exact heq ▸ ht
    · exact h.entry hmem

theorem find {t u : FileTree} (h : DistinctNames t) {ps : List RawText} (hu : t.find ps = .ok u) :
    DistinctNames u := by
  induction ps generalizing t with
  | nil =>
    rw [FileTree.find] at hu
    exact Except.ok.inj hu ▸ h
  | cons p ps ih =>
    cases t with
    | file b r => cases hu
    | dir es r =>
      rw [FileTree.find] at hu
      cases hp : es.lookup p with
      | none => simp [hp] at hu
      | some v =>
        rw [hp] at hu
        exact ih (h.entry ((lookup_eq_some_iff_mem h.nodup).mp hp)) hu

/-- Putting a node into a tree keeps the names distinct. -/
theorem put {t leaf : FileTree} (h : DistinctNames t) (hleaf : DistinctNames leaf) (ps : List RawText) :
    DistinctNames (t.put ps leaf) := by
  induction ps generalizing t with
  | nil =>
    rw [FileTree.put]
    exact hleaf
  | cons p ps ih =>
    cases t with
    | file b r => exact .file
    | dir es r =>
      rw [FileTree.put]
      apply h.setEntry
      cases hp : es.lookup p with
      | none => exact ih .empty
      | some u => exact ih (h.entry ((lookup_eq_some_iff_mem h.nodup).mp hp))

end DistinctNames

/-- Trees that are made from a listing have distinct names. -/
theorem distinctNames_ofListing (cwd : Path) (listing : Fields) :
    DistinctNames (ofListing cwd listing) := by
  have hcontent : ∀ v, DistinctNames (ofContent v) := by
    intro v
    unfold ofContent
    split
    · exact .file
    · split <;> exact .file
    · exact .empty
  have hfold : ∀ (l : Fields) (t : FileTree), DistinctNames t → DistinctNames
      (l.foldl (fun t e => t.put (cwd ++ Path.ofText e.1).parts (ofContent e.2)) t) := by
    intro l
    induction l with
    | nil => exact fun t ht => ht
    | cons e l ih => exact fun t ht => ih _ (ht.put (hcontent e.2) _)
  exact hfold listing _ (DistinctNames.empty.put .empty cwd.parts)

/-! ### The order of listing -/

/-- The same entries in another order, and so at every level below. -/
inductive Relisted : List (RawText × FileTree) → List (RawText × FileTree) → Prop where
  | nil : Relisted [] []
  | file (n : RawText) (b : Bytes) (r : Rights) {es es' : List (RawText × FileTree)} :
      Relisted es es' → Relisted ((n, .file b r) :: es) ((n, .file b r) :: es')
  | dir (n : RawText) (r : Rights) {below below' es es' : List (RawText × FileTree)} :
      Relisted below below' → Relisted es es' →
      Relisted ((n, .dir below r) :: es) ((n, .dir below' r) :: es')
  | swap (a b : RawText × FileTree) (es : List (RawText × FileTree)) : Relisted (a :: b :: es) (b :: a :: es)
  | trans {es es' es'' : List (RawText × FileTree)} :
      Relisted es es' → Relisted es' es'' → Relisted es es''

namespace Relisted

theorem map_fst_perm {es es' : List (RawText × FileTree)} (h : Relisted es es') :
    (es.map Prod.fst).Perm (es'.map Prod.fst) := by
  induction h with
  | nil => exact .refl _
  | file n b r _ ih => exact ih.cons n
  | dir n r _ _ _ ih => exact ih.cons n
  | swap a b es => exact .swap b.1 a.1 _
  | trans _ _ ih ih' => exact ih.trans ih'

/-- The same entries in another order have distinct names again. -/
theorem distinctNames {es es' : List (RawText × FileTree)} (h : Relisted es es') {r : Rights}
    (hes : DistinctNames (.dir es r)) : DistinctNames (.dir es' r) := by
  induction h generalizing r with
  | nil => exact hes
  | file n b r' hrest ih =>
    refine .dir ((hrest.map_fst_perm.cons n).nodup_iff.mp hes.nodup) fun e he => ?_
    rcases List.mem_cons.mp he with rfl | he
    · exact .file
    · exact (ih hes.tail).entry he
  | dir n r' hbelow hrest ihbelow ih =>
    refine .dir ((hrest.map_fst_perm.cons n).nodup_iff.mp hes.nodup) fun e he => ?_
    rcases List.mem_cons.mp he with rfl | he
    · exact ihbelow (hes.entry List.mem_cons_self)
    · exact (ih hes.tail).entry he
  | swap a b es =>
    refine .dir ((List.Perm.swap b.1 a.1 _).nodup_iff.mp hes.nodup) fun e he => hes.entry ?_
    exact (List.Perm.swap a b es).mem_iff.mp he
  | trans _ _ ih ih' => exact ih' (ih hes)

/-- The entries of one name are the same, or directories that are listed in another order. -/
theorem lookup {es es' : List (RawText × FileTree)} (h : Relisted es es') {r : Rights}
    (hes : DistinctNames (.dir es r)) (n : RawText) :
    es.lookup n = es'.lookup n ∨ ∃ below below' r, Relisted below below' ∧
      es.lookup n = some (.dir below r) ∧ es'.lookup n = some (.dir below' r) := by
  induction h generalizing r with
  | nil => exact Or.inl rfl
  | file m b r' _ ih =>
    rw [lookup_cons_eq_ite, lookup_cons_eq_ite]
    split
    · exact Or.inl rfl
    · exact ih hes.tail
  | dir m r' hbelow _ _ ih =>
    rw [lookup_cons_eq_ite, lookup_cons_eq_ite]
    split
    · exact Or.inr ⟨_, _, r', hbelow, rfl, rfl⟩
    · exact ih hes.tail
  | swap a b es =>
    have hne : a.1 ≠ b.1 := fun heq =>
      (List.nodup_cons.mp hes.nodup).1 (heq ▸ List.mem_cons_self)
    refine Or.inl ?_
    simp only [lookup_cons_eq_ite]
    by_cases ha : n = a.1
    · subst ha
      rw [if_pos rfl, if_pos rfl, if_neg hne]
    · rw [if_neg ha, if_neg ha]
  | trans h _ ih ih' =>
    rcases ih hes, ih' (h.distinctNames hes) with ⟨heq | ⟨b₁, b₂, r₁, h₁, hl₁, hl₂⟩,
      heq' | ⟨b₃, b₄, r₂, h₂, hl₃, hl₄⟩⟩
    · exact Or.inl (heq.trans heq')
    · exact Or.inr ⟨b₃, b₄, r₂, h₂, heq.trans hl₃, hl₄⟩
    · exact Or.inr ⟨b₁, b₂, r₁, h₁, hl₁, heq'.symm.trans hl₂⟩
    · cases hl₂.symm.trans hl₃
      exact Or.inr ⟨b₁, b₄, r₁, h₁.trans h₂, hl₁, hl₄⟩

/-- **The order of listing does not show.** -/
theorem nodeAt_eq {es es' : List (RawText × FileTree)} (h : Relisted es es') {r : Rights}
    (hes : DistinctNames (.dir es r)) (ps : List RawText) :
    (FileTree.dir es r).nodeAt ps = (FileTree.dir es' r).nodeAt ps := by
  induction ps generalizing es es' r with
  | nil => rfl
  | cons p ps ih =>
    rw [nodeAt_dir_cons, nodeAt_dir_cons]
    rcases h.lookup hes p with heq | ⟨below, below', r', hbelow, hl, hl'⟩
    · rw [heq]
    · rw [hl, hl', Option.bind_some, Option.bind_some]
      exact ih hbelow (hes.entry ((lookup_eq_some_iff_mem hes.nodup).mp hl))

end Relisted

end FileTree

end DocMark
