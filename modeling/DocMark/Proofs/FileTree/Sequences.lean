import DocMark.Proofs.FileTree.Writing

/-!
Several files written one after another.

Each write puts a file at its path and directories along the way, and needs a path that is free at its
time (`Writable`). What such a sequence leaves behind can be said of each path alone:

* Files stay files and directories stay directories; a file changes only when it is written
  (`Writable.file_kept`, `Writable.dir_kept`). At every written path a file stands in the end
  (`Writable.exists_file`), and its own bytes when no path is written twice (`Writable.file_of_nodup`).
* New files are only at written paths (`writeAll_eq_file`).
* A sequence can be repeated on what it left (`Writable.again`), and that changes nothing
  (`writeAll_writeAll`).
-/

namespace DocMark.FileTree

variable {v v' : List RawText → Option Node} {q ps ts : List RawText} {b c : Bytes}

/-! ### One write -/

theorem withFile_self : withFile v ps c ps = some (.file c) := if_pos rfl

theorem withFile_of_isPrefix (hq : q <+: ps) (hne : q ≠ ps) : withFile v ps c q = some .dir := by
  rw [withFile, if_neg hne, if_pos hq]

theorem withFile_of_not_isPrefix (hq : ¬ q <+: ps) : withFile v ps c q = v q := by
  have hne : q ≠ ps := by
    rintro rfl
    exact hq (List.prefix_refl q)
  rw [withFile, if_neg hne, if_neg hq]

/-- A file behind a write is the new one, or it was there before. -/
theorem withFile_eq_file (h : withFile v ps c q = some (.file b)) : q = ps ∨ v q = some (.file b) := by
  by_cases heq : q = ps
  · exact Or.inl heq
  · by_cases hq : q <+: ps
    · rw [withFile_of_isPrefix hq heq] at h
      cases h
    · rw [withFile_of_not_isPrefix hq] at h
      exact Or.inr h

/-- A directory behind a write is on the way to the file, or it was there before. -/
theorem withFile_eq_dir (h : withFile v ps c q = some .dir) : q <+: ps ∨ v q = some .dir := by
  by_cases hq : q <+: ps
  · exact Or.inl hq
  · rw [withFile_of_not_isPrefix hq] at h
    exact Or.inr h

namespace Free

/-- A file elsewhere is not in the way, so it is not touched. -/
theorem file_kept (h : Free v ps) (hq : v q = some (.file b)) (hne : q ≠ ps) :
    withFile v ps c q = some (.file b) := by
  rw [withFile_of_not_isPrefix fun hpre => h.no_file q hpre hne b hq, hq]

theorem dir_kept (h : Free v ps) (hq : v q = some .dir) : withFile v ps c q = some .dir := by
  by_cases hpre : q <+: ps
  · refine withFile_of_isPrefix hpre ?_
    rintro rfl
    exact h.no_dir hq
  · rw [withFile_of_not_isPrefix hpre, hq]

/-- A file can be put into a directory that stands already. -/
theorem of_dir {t : FileTree} (dirs : List RawText) {name : RawText} (h : t.nodeAt dirs = some .dir)
    (hname : t.nodeAt (dirs ++ [name]) ≠ some .dir) : Free t.nodeAt (dirs ++ [name]) := by
  refine ⟨fun q hq hne b hfile => ?_, hname⟩
  have hq := (List.prefix_concat_iff.mp hq).resolve_left hne
  by_cases heq : q = dirs
  · rw [heq, h] at hfile
    cases hfile
  · rw [nodeAt_eq_dir_of_isPrefix h hq heq] at hfile
    cases hfile

/-- A path stays free when neither it nor the other path leads through the other. -/
theorem withFile (h : Free v ps) (hts : ¬ ts <+: ps) (hps : ¬ ps <+: ts) :
    Free (withFile v ts c) ps := by
  refine ⟨fun q hq hne b hfile => ?_, fun hdir => ?_⟩
  · rcases withFile_eq_file hfile with rfl | hold
    · exact hts hq
    · exact h.no_file q hq hne b hold
  · rcases withFile_eq_dir hdir with hpre | hold
    · exact hps hpre
    · exact h.no_dir hold

end Free

/-! ### Sequences of writes -/

/-- The nodes after writing files with their directories, in order. -/
def writeAll : (List RawText → Option Node) → List (List RawText × Bytes) → List RawText → Option Node
  | v, [] => v
  | v, w :: ws => writeAll (withFile v w.1 w.2) ws

/-- Each file can be written when its turn comes. -/
inductive Writable : (List RawText → Option Node) → List (List RawText × Bytes) → Prop
  | nil (v : List RawText → Option Node) : Writable v []
  | cons {v : List RawText → Option Node} {w : List RawText × Bytes} {ws : List (List RawText × Bytes)} :
    Free v w.1 → Writable (withFile v w.1 w.2) ws → Writable v (w :: ws)

section WriteAll

variable {w : List RawText × Bytes} {ws : List (List RawText × Bytes)}

theorem writeAll_concat : writeAll v (ws ++ [w]) = withFile (writeAll v ws) w.1 w.2 := by
  induction ws generalizing v with
  | nil => rfl
  | cons w' ws ih => exact ih

theorem writeAll_congr (h : v q = v' q) : writeAll v ws q = writeAll v' ws q := by
  induction ws generalizing v v' with
  | nil => exact h
  | cons w ws ih =>
    refine ih ?_
    unfold withFile
    rw [h]

/-- What is left at a path that a write goes through does not depend on what was there before. -/
theorem writeAll_of_isPrefix (hw : w ∈ ws) (hq : q <+: w.1) : writeAll v ws q = writeAll v' ws q := by
  induction ws generalizing v v' with
  | nil => cases hw
  | cons w' ws ih =>
    rcases List.mem_cons.mp hw with rfl | hlater
    · rw [writeAll, writeAll]
      apply writeAll_congr
      by_cases heq : q = w.1
      · rw [heq, withFile_self, withFile_self]
      · rw [withFile_of_isPrefix hq heq, withFile_of_isPrefix hq heq]
    · exact ih hlater

theorem writeAll_of_not_isPrefix (h : ∀ w ∈ ws, ¬ q <+: w.1) : writeAll v ws q = v q := by
  induction ws generalizing v with
  | nil => rfl
  | cons w ws ih =>
    have hrest := ih (v := withFile v w.1 w.2) fun w' hw' => h w' (List.mem_cons_of_mem w hw')
    exact hrest.trans (withFile_of_not_isPrefix (h w List.mem_cons_self))

/-- **Writing the same files once more changes nothing.** -/
theorem writeAll_writeAll : writeAll (writeAll v ws) ws = writeAll v ws := by
  funext q
  by_cases h : ∃ w ∈ ws, q <+: w.1
  · obtain ⟨w, hw, hq⟩ := h
    exact writeAll_of_isPrefix hw hq
  · exact writeAll_of_not_isPrefix fun w hw hq => h ⟨w, hw, hq⟩

/-- A file behind some writes was written, or it was there before. -/
theorem writeAll_eq_file (h : writeAll v ws q = some (.file b)) :
    v q = some (.file b) ∨ ∃ w ∈ ws, q = w.1 := by
  induction ws generalizing v with
  | nil => exact Or.inl h
  | cons w ws ih =>
    rcases ih h with hold | ⟨w', hw', heq⟩
    · rcases withFile_eq_file hold with heq | hold
      · exact Or.inr ⟨w, List.mem_cons_self, heq⟩
      · exact Or.inl hold
    · exact Or.inr ⟨w', List.mem_cons_of_mem w hw', heq⟩

/-- Where a file can be put, it can still be put after writes at other places. -/
theorem Free.writeAll (h : Free v ps) (hws : ∀ w ∈ ws, ¬ w.1 <+: ps ∧ ¬ ps <+: w.1) :
    Free (writeAll v ws) ps := by
  induction ws generalizing v with
  | nil => exact h
  | cons w ws ih =>
    obtain ⟨hts, hps⟩ := hws w List.mem_cons_self
    exact ih (h.withFile hts hps) fun w' hw' => hws w' (List.mem_cons_of_mem w hw')

end WriteAll

namespace Writable

variable {w : List RawText × Bytes} {ws : List (List RawText × Bytes)}

/-- The last file has to have room behind the others. -/
theorem concat_iff : Writable v (ws ++ [w]) ↔ Writable v ws ∧ Free (writeAll v ws) w.1 := by
  induction ws generalizing v with
  | nil =>
    constructor
    · rintro ⟨⟩
      exact ⟨.nil v, ‹_›⟩
    · exact fun h => .cons h.2 (.nil _)
  | cons w' ws ih =>
    constructor
    · rintro (_ | ⟨hfree, hrest⟩)
      obtain ⟨hws, hw⟩ := ih.mp hrest
      exact ⟨.cons hfree hws, hw⟩
    · rintro ⟨_ | ⟨hfree, hrest⟩, hw⟩
      exact .cons hfree (ih.mpr ⟨hrest, hw⟩)

/-- Writing removes no directory. -/
theorem dir_kept (h : Writable v ws) (hq : v q = some .dir) : writeAll v ws q = some .dir := by
  induction h with
  | nil v => exact hq
  | cons hfree _ ih => exact ih (hfree.dir_kept hq)

/-- A file changes only when it is written. -/
theorem file_kept (h : Writable v ws) (hq : v q = some (.file b)) (hne : ∀ w ∈ ws, q ≠ w.1) :
    writeAll v ws q = some (.file b) := by
  induction h with
  | nil v => exact hq
  | @cons v w ws hfree _ ih =>
    exact ih (hfree.file_kept hq (hne w List.mem_cons_self)) fun w' hw' =>
      hne w' (List.mem_cons_of_mem w hw')

/-- Writing makes no directory of a file. -/
theorem file_stays (h : Writable v ws) (hq : v q = some (.file b)) :
    ∃ b', writeAll v ws q = some (.file b') := by
  induction h generalizing b with
  | nil v => exact ⟨b, hq⟩
  | @cons v w ws hfree _ ih =>
    by_cases heq : q = w.1
    · subst heq
      exact ih withFile_self
    · exact ih (hfree.file_kept hq heq)

theorem exists_file (h : Writable v ws) (hw : w ∈ ws) : ∃ b, writeAll v ws w.1 = some (.file b) := by
  induction h with
  | nil v => cases hw
  | cons _ hrest ih =>
    rcases List.mem_cons.mp hw with rfl | hlater
    · exact hrest.file_stays withFile_self
    · exact ih hlater

/-- A file that is written once holds what was written. -/
theorem file_of_nodup (h : Writable v ws) (hnodup : (ws.map Prod.fst).Nodup) (hw : w ∈ ws) :
    writeAll v ws w.1 = some (.file w.2) := by
  induction h with
  | nil v => cases hw
  | @cons v w' ws _ hrest ih =>
    rw [List.map_cons, List.nodup_cons] at hnodup
    rcases List.mem_cons.mp hw with rfl | hlater
    · refine hrest.file_kept withFile_self fun w' hw' heq => hnodup.1 ?_
      rw [heq]
      exact List.mem_map_of_mem hw'
    · exact ih hnodup.2 hlater

end Writable

/-! ### Writing once more -/

/-- A file stands at a path and directories stand along the way. -/
structure Stands (v : List RawText → Option Node) (ps : List RawText) : Prop where
  file : ∃ b, v ps = some (.file b)
  dirs : ∀ q, q <+: ps → q ≠ ps → v q = some .dir

theorem Stands.free (h : Stands v ps) : Free v ps := by
  obtain ⟨b, hb⟩ := h.file
  refine ⟨fun q hq hne b hfile => ?_, fun hdir => ?_⟩
  · rw [h.dirs q hq hne] at hfile
    cases hfile
  · rw [hb] at hdir
    cases hdir

/-- Files that stand keep standing when one of them is written. -/
theorem Stands.withFile (h : Stands v ps) (hts : Free v ts) : Stands (withFile v ts c) ps := by
  refine ⟨?_, fun q hq hne => hts.dir_kept (h.dirs q hq hne)⟩
  obtain ⟨b, hb⟩ := h.file
  by_cases heq : ps = ts
  · exact ⟨c, heq ▸ withFile_self⟩
  · exact ⟨b, hts.file_kept hb heq⟩

/-- Files that are there can be written again. -/
theorem writable_of_stands {ws : List (List RawText × Bytes)} (h : ∀ w ∈ ws, Stands v w.1) :
    Writable v ws := by
  induction ws generalizing v with
  | nil => exact .nil v
  | cons w ws ih =>
    have hfree := (h w List.mem_cons_self).free
    exact .cons hfree (ih fun w' hw' => (h w' (List.mem_cons_of_mem w hw')).withFile hfree)

/-- **What was written can be written again.** -/
theorem Writable.again {ws : List (List RawText × Bytes)} (h : Writable v ws) {t : FileTree}
    (ht : t.nodeAt = writeAll v ws) : Writable t.nodeAt ws := by
  refine writable_of_stands fun w hw => ?_
  obtain ⟨b, hb⟩ := h.exists_file hw
  rw [← ht] at hb
  exact ⟨⟨b, hb⟩, fun q hq hne => nodeAt_eq_dir_of_isPrefix hb hq hne⟩

/-! ### Trees that files were written to -/

/-- Files were written in order with their directories, and nothing else changed. -/
structure Wrote (before : FileTree) (ws : List (List RawText × Bytes)) (after : FileTree) : Prop where
  nodes : after.nodeAt = writeAll before.nodeAt ws
  access : after.access = before.access
  distinct : before.DistinctNames → after.DistinctNames

namespace Wrote

variable {t t₁ t' : FileTree} {p : Path} {ws : List (List RawText × Bytes)}

theorem nil (t : FileTree) : Wrote t [] t := ⟨rfl, rfl, id⟩

theorem cons (hfile : t.HasFile p c t₁) (h : Wrote t₁ ws t') : Wrote t ((p.parts, c) :: ws) t' := by
  refine ⟨?_, h.access.trans hfile.access, fun hd => h.distinct (hfile.distinct hd)⟩
  rw [h.nodes, hfile.nodes]
  rfl

theorem concat (h : Wrote t ws t₁) (hfile : t₁.HasFile p c t') : Wrote t (ws ++ [(p.parts, c)]) t' := by
  refine ⟨?_, hfile.access.trans h.access, fun hd => hfile.distinct (h.distinct hd)⟩
  rw [hfile.nodes, h.nodes, writeAll_concat]

end Wrote

end DocMark.FileTree
