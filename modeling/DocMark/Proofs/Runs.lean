/-!
Runs of computations that hold a state and can fail.

A run from a state either yields a value or fails with an error, and leaves a state behind in both cases.
The lemmas take a run apart along the way it was composed: a sequence yields exactly when its parts do
(`yields_bind_iff`), and it fails where the first of its parts fails (`fails_bind_iff`).
-/

namespace DocMark

variable {ε σ α β : Type}

/-- Run from the state `s`, the computation yields `a` and leaves the state `s'`. -/
def Yields (x : ExceptT ε (StateM σ) α) (s : σ) (a : α) (s' : σ) : Prop :=
  x.run.run s = (.ok a, s')

/-- Run from the state `s`, the computation fails with `e` and leaves the state `s'`. -/
def Fails (x : ExceptT ε (StateM σ) α) (s : σ) (e : ε) (s' : σ) : Prop :=
  x.run.run s = (.error e, s')

/-- A computation that succeeds has a first part that does. -/
theorem exists_of_bind_eq_ok {x : Except ε α} {f : α → Except ε β} {b : β} (h : x >>= f = .ok b) :
    ∃ a, x = .ok a ∧ f a = .ok b := by
  cases x with
  | error e => exact absurd h (by simp [bind, Except.bind])
  | ok a => exact ⟨a, rfl, h⟩

/-- A computation goes on with what was yielded, or ends as it failed. -/
theorem run_bind (x : ExceptT ε (StateM σ) α) (f : α → ExceptT ε (StateM σ) β) (s : σ) :
    (x >>= f).run.run s =
      match x.run.run s with
      | (.ok a, s') => (f a).run.run s'
      | (.error e, s') => (.error e, s') := by
  rcases h : x.run.run s with ⟨r, s'⟩
  cases r with
  | ok a =>
    simp only [ExceptT.run_bind, StateT.run_bind, h]
    rfl
  | error e =>
    simp only [ExceptT.run_bind, StateT.run_bind, h]
    rfl

/-- A computation that fails goes on with the handler, in the state it left. -/
theorem run_tryCatch (x : ExceptT ε (StateM σ) α) (f : ε → ExceptT ε (StateM σ) α) (s : σ) :
    (tryCatch x f).run.run s =
      match x.run.run s with
      | (.ok a, s') => (.ok a, s')
      | (.error e, s') => (f e).run.run s' := by
  rcases h : x.run.run s with ⟨r, s'⟩
  rw [ExceptT.run_tryCatch, StateT.run_bind, h]
  cases r with
  | ok a => rfl
  | error e => rfl

/-- Behind a first part that yields, a sequence runs as its second part. -/
theorem run_bind_of_yields {x : ExceptT ε (StateM σ) α} {f : α → ExceptT ε (StateM σ) β} {s s' : σ} {a : α}
    (h : Yields x s a s') : (x >>= f).run.run s = (f a).run.run s' := by
  have hx : x.run.run s = (.ok a, s') := h
  rw [run_bind, hx]

/-- A computation whose end is looked at yields its end. -/
theorem yields_lift {x : ExceptT ε (StateM σ) α} {s s' : σ} {r : Except ε α} (h : x.run.run s = (r, s')) :
    Yields (ExceptT.lift x.run : ExceptT ε (StateM σ) (Except ε α)) s r s' := by
  change (Except.ok (x.run.run s).1, (x.run.run s).2) = (.ok r, s')
  rw [h]

/-- **A sequence yields exactly when its parts do.** -/
theorem yields_bind_iff {x : ExceptT ε (StateM σ) α} {f : α → ExceptT ε (StateM σ) β} {s s'' : σ} {b : β} :
    Yields (x >>= f) s b s'' ↔ ∃ a s', Yields x s a s' ∧ Yields (f a) s' b s'' := by
  unfold Yields
  rw [run_bind]
  rcases x.run.run s with ⟨r, s'⟩
  cases r with
  | ok a =>
    constructor
    · exact fun h => ⟨a, s', rfl, h⟩
    · rintro ⟨_, _, h, hf⟩
      cases h
      exact hf
  | error e =>
    constructor
    · intro h
      cases h
    · rintro ⟨_, _, h, -⟩
      cases h

/-- What can be said of the state behind the second part can be said of the state behind the sequence. -/
theorem exists_yields_bind {x : ExceptT ε (StateM σ) α} {f : α → ExceptT ε (StateM σ) β} {s s' : σ} {a : α}
    {b : β} {p : σ → Prop} (hx : Yields x s a s') (hf : ∃ s'', Yields (f a) s' b s'' ∧ p s'') :
    ∃ s'', Yields (x >>= f) s b s'' ∧ p s'' := by
  obtain ⟨s'', hb, hp⟩ := hf
  exact ⟨s'', yields_bind_iff.mpr ⟨a, s', hx, hb⟩, hp⟩

/-- A sequence fails in its first part, or behind it. -/
theorem fails_bind_iff {x : ExceptT ε (StateM σ) α} {f : α → ExceptT ε (StateM σ) β} {s s'' : σ} {e : ε} :
    Fails (x >>= f) s e s'' ↔
      Fails x s e s'' ∨ ∃ a s', Yields x s a s' ∧ Fails (f a) s' e s'' := by
  unfold Yields Fails
  rw [run_bind]
  rcases x.run.run s with ⟨r, s'⟩
  cases r with
  | ok a =>
    constructor
    · exact fun h => Or.inr ⟨a, s', rfl, h⟩
    · rintro (h | ⟨_, _, h, hf⟩)
      · cases h
      · cases h
        exact hf
  | error e' =>
    constructor
    · intro h
      cases h
      exact Or.inl rfl
    · rintro (h | ⟨_, _, h, -⟩)
      · cases h
        rfl
      · cases h

theorem yields_pure_iff {a b : α} {s s' : σ} :
    Yields (pure a : ExceptT ε (StateM σ) α) s b s' ↔ a = b ∧ s = s' := by
  change ((Except.ok a : Except ε α), s) = (.ok b, s') ↔ _
  simp

theorem not_fails_pure {a : α} {s s' : σ} {e : ε} :
    ¬ Fails (pure a : ExceptT ε (StateM σ) α) s e s' := by
  intro h
  cases h

theorem not_yields_throw {e : ε} {a : α} {s s' : σ} :
    ¬ Yields (throw e : ExceptT ε (StateM σ) α) s a s' := by
  intro h
  cases h

theorem fails_throw_iff {e e' : ε} {s s' : σ} :
    Fails (throw e : ExceptT ε (StateM σ) α) s e' s' ↔ e = e' ∧ s = s' := by
  change ((Except.error e : Except ε α), s) = (.error e', s') ↔ _
  simp

theorem yields_get_iff {a s s' : σ} :
    Yields (get : ExceptT ε (StateM σ) σ) s a s' ↔ s = a ∧ s = s' := by
  change ((Except.ok s : Except ε σ), s) = (.ok a, s') ↔ _
  simp

theorem not_fails_get {e : ε} {s s' : σ} : ¬ Fails (get : ExceptT ε (StateM σ) σ) s e s' := by
  intro h
  cases h

theorem yields_set_iff {t s s' : σ} {u : PUnit} :
    Yields (set t : ExceptT ε (StateM σ) PUnit) s u s' ↔ t = s' := by
  change ((Except.ok ⟨⟩ : Except ε PUnit), t) = (.ok u, s') ↔ _
  simp

theorem yields_modify_iff {f : σ → σ} {s s' : σ} {u : PUnit} :
    Yields (modify f : ExceptT ε (StateM σ) PUnit) s u s' ↔ f s = s' := by
  change ((Except.ok ⟨⟩ : Except ε PUnit), f s) = (.ok u, s') ↔ _
  simp

theorem not_fails_modify {f : σ → σ} {e : ε} {s s' : σ} :
    ¬ Fails (modify f : ExceptT ε (StateM σ) PUnit) s e s' := by
  intro h
  cases h

/-! ### Computations that only read the state -/

/-- The computation leaves every state as it is, whether it yields or fails. -/
def Reads (x : ExceptT ε (StateM σ) α) : Prop := ∀ s, (x.run.run s).2 = s

theorem reads_pure (a : α) : Reads (pure a : ExceptT ε (StateM σ) α) := fun _ => rfl

theorem reads_throw (e : ε) : Reads (throw e : ExceptT ε (StateM σ) α) := fun _ => rfl

theorem reads_get : Reads (get : ExceptT ε (StateM σ) σ) := fun _ => rfl

/-- A computation of parts that change nothing changes nothing. -/
theorem Reads.bind {x : ExceptT ε (StateM σ) α} {f : α → ExceptT ε (StateM σ) β} (hx : Reads x)
    (hf : ∀ a, Reads (f a)) : Reads (x >>= f) := by
  intro s
  have hs := hx s
  rcases hrun : x.run.run s with ⟨r, s'⟩
  rw [hrun] at hs
  obtain rfl : s' = s := hs
  rw [run_bind, hrun]
  cases r with
  | ok a => exact hf a s'
  | error e => rfl

theorem Reads.eq_of_yields {x : ExceptT ε (StateM σ) α} (hx : Reads x) {s s' : σ} {a : α}
    (h : Yields x s a s') : s' = s := by
  have hs := hx s
  have hrun : x.run.run s = (.ok a, s') := h
  rw [hrun] at hs
  exact hs

/-! ### Answers that no state changes -/

/-- From every state the computation yields `a` if `p` holds, and fails otherwise. -/
def Settles (x : ExceptT ε (StateM σ) α) (p : Prop) (a : α) : Prop :=
  ∀ s, (p → ∃ s', Yields x s a s') ∧ (¬ p → ∃ e s', Fails x s e s')

section Settles

variable {x : ExceptT ε (StateM σ) α} {f : α → ExceptT ε (StateM σ) β} {p q : Prop} {a : α} {b : β}

theorem settles_pure (a : α) : Settles (pure a : ExceptT ε (StateM σ) α) True a :=
  fun s => ⟨fun _ => ⟨s, yields_pure_iff.mpr ⟨rfl, rfl⟩⟩, fun h => absurd trivial h⟩

theorem settles_throw (e : ε) (a : α) : Settles (throw e : ExceptT ε (StateM σ) α) False a :=
  fun s => ⟨False.elim, fun _ => ⟨e, s, fails_throw_iff.mpr ⟨rfl, rfl⟩⟩⟩

theorem settles_modify (g : σ → σ) : Settles (modify g : ExceptT ε (StateM σ) PUnit) True ⟨⟩ :=
  fun s => ⟨fun _ => ⟨g s, yields_modify_iff.mpr rfl⟩, fun h => absurd trivial h⟩

theorem Settles.congr (h : Settles x p a) (hpq : p ↔ q) : Settles x q a := propext hpq ▸ h

/-- What a settled computation yields is its answer, and it yields only if it can. -/
theorem Settles.of_yields (h : Settles x p a) {s s' : σ} {a' : α} (hy : Yields x s a' s') : p ∧ a' = a := by
  by_cases hp : p
  · obtain ⟨s'', ha⟩ := (h s).1 hp
    exact ⟨hp, Except.ok.inj (Prod.mk.inj (hy.symm.trans ha)).1⟩
  · obtain ⟨e, s'', he⟩ := (h s).2 hp
    cases hy.symm.trans he

/-- **A sequence settles when its parts do**, and needs what they need. -/
theorem Settles.bind (hx : Settles x p a) (hf : Settles (f a) q b) : Settles (x >>= f) (p ∧ q) b := by
  intro s
  refine ⟨?_, ?_⟩
  · rintro ⟨hp, hq⟩
    obtain ⟨s₁, ha⟩ := (hx s).1 hp
    obtain ⟨s₂, hb⟩ := (hf s₁).1 hq
    exact ⟨s₂, yields_bind_iff.mpr ⟨a, s₁, ha, hb⟩⟩
  · intro hpq
    by_cases hp : p
    · obtain ⟨s₁, ha⟩ := (hx s).1 hp
      obtain ⟨e, s₂, he⟩ := (hf s₁).2 fun hq => hpq ⟨hp, hq⟩
      exact ⟨e, s₂, fails_bind_iff.mpr (Or.inr ⟨a, s₁, ha, he⟩)⟩
    · obtain ⟨e, s₁, he⟩ := (hx s).2 hp
      exact ⟨e, s₁, fails_bind_iff.mpr (Or.inl he)⟩

/-- A sequence whose first part always yields needs what the second part needs. -/
theorem Settles.then (hx : Settles x True a) (hf : Settles (f a) q b) : Settles (x >>= f) q b :=
  (hx.bind hf).congr (iff_of_eq (true_and q))

end Settles

end DocMark
