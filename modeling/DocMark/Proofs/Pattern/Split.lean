import DocMark.Pattern.Split
import DocMark.Proofs.Scanner

/-!
Cutting a text at its separators.

`Separators.Finds` lists the separators that a search meets, each one looked for behind the one before, up to
a number of them. Splitting gives what stands in front of each of these and what stands behind the last
(`splitFrom_eq_of_finds`); together with the separators this is the whole text (`weave_front`). A text has
only so many separators (`Finds.all_of_work_le`), so without a limit all of them split.

`tokenize_exact_iff` says what follows for tokens. From two tokens on there are exactly as many as asked for.
Asking for one token sets no limit, so one token comes out only if there is no separator.
-/

namespace DocMark

namespace Separators

variable {s : Text} {sep : Separators s} {n pos : Nat} {further : Bool} {ms : List Match}

/-- Separators that capture nothing. -/
def Plain (sep : Separators s) : Prop :=
  ∀ pos further m, sep.next? pos further = some m → m.groups = []

/-- The first separators from `pos` on: `n` of them, or all if there are fewer. Each one is looked for where
the one before ended, and further on if that one was empty. -/
inductive Finds (sep : Separators s) : (n pos : Nat) → (further : Bool) → List Match → Prop where
  | enough {pos : Nat} {further : Bool} : Finds sep 0 pos further []
  | ended {n pos : Nat} {further : Bool} : sep.next? pos further = none → Finds sep n pos further []
  | found {n pos : Nat} {further : Bool} {m : Match} {ms : List Match} : sep.next? pos further = some m →
      Finds sep n m.stop (m.start == m.stop) ms → Finds sep (n + 1) pos further (m :: ms)

/-- What stands in front of each separator, from `pos` on. -/
def front (s : Text) (pos : Nat) (ms : List Match) : List Text :=
  List.zipWith (fun start stop => s.extract start stop) (pos :: ms.map Match.stop) (ms.map Match.start)

/-- What stands behind the last separator, or all from `pos` on if there is none. -/
def rest (s : Text) (pos : Nat) (ms : List Match) : Text := s.drop ((ms.map Match.stop).getLastD pos)

theorem front_cons (pos : Nat) (m : Match) (ms : List Match) :
    front s pos (m :: ms) = s.extract pos m.start :: front s m.stop ms := rfl

theorem rest_cons (pos : Nat) (m : Match) (ms : List Match) : rest s pos (m :: ms) = rest s m.stop ms := by
  rw [rest, List.map_cons, List.getLastD_cons, rest]

@[simp] theorem length_front (pos : Nat) (ms : List Match) : (front s pos ms).length = ms.length := by
  simp [front]

theorem extract_append_drop {start stop : Nat} (h : start ≤ stop) :
    s.extract start stop ++ s.drop stop = s.drop start := by
  have hdrop : s.drop stop = (s.drop start).drop (stop - start) := by
    rw [List.drop_drop, Nat.add_sub_cancel' h]
  rw [List.extract_eq_take_drop, hdrop, List.take_append_drop]

/-! ### The separators of a text -/

/-- From every position some separators are found. -/
theorem exists_finds (sep : Separators s) (n pos : Nat) (further : Bool) : ∃ ms, sep.Finds n pos further ms := by
  induction n generalizing pos further with
  | zero => exact ⟨[], .enough⟩
  | succ n ih =>
    cases hnext : sep.next? pos further with
    | none => exact ⟨[], .ended hnext⟩
    | some m =>
      obtain ⟨ms, hms⟩ := ih m.stop (m.start == m.stop)
      exact ⟨m :: ms, .found hnext hms⟩

theorem Finds.length_le (h : sep.Finds n pos further ms) : ms.length ≤ n := by
  induction h with
  | enough => exact Nat.le_refl 0
  | ended _ => exact Nat.zero_le _
  | found _ _ ih => exact Nat.succ_le_succ ih

/-- No separator is found exactly if there is none. -/
theorem Finds.eq_nil_iff (h : sep.Finds (n + 1) pos further ms) : ms = [] ↔ sep.next? pos further = none := by
  cases h with
  | ended hnone => exact iff_of_true rfl hnone
  | found hnext _ => exact iff_of_false (List.cons_ne_nil _ _) (by simp [hnext])

/-- How many separators there can be from `pos` on: two for each character, and an empty one more if the
search need not go further. -/
def work (s : Text) (pos : Nat) (further : Bool) : Nat := 2 * (s.length - pos) + if further then 0 else 1

/-- Behind a separator there is less to do: it takes characters, or it is empty and the next one is not. -/
theorem work_lt {m : Match} (h : sep.next? pos further = some m) :
    work s m.stop (m.start == m.stop) < work s pos further := by
  obtain ⟨hstart, hle, hstop⟩ := sep.inside h
  unfold work
  by_cases hfurther : pos < m.stop
  · split <;> split <;> omega
  · -- The separator is empty and at the position itself, which is where a search that goes further never ends.
    have hempty : (m.start == m.stop) = true := beq_iff_eq.mpr (by omega)
    cases further with
    | true => exact absurd (sep.advances h) hfurther
    | false =>
      rw [hempty, if_pos rfl, if_neg Bool.false_ne_true]
      omega

/-- **A search comes to an end.** One that may go on for long enough finds all separators. -/
theorem Finds.all_of_work_le (h : sep.Finds n pos further ms) (hn : work s pos further ≤ n) :
    sep.Finds (ms.length + 1) pos further ms := by
  induction h with
  | @enough pos further =>
    cases hnext : sep.next? pos further with
    | none => exact .ended hnext
    | some m => exact absurd (work_lt hnext) (by omega)
  | ended hnone => exact .ended hnone
  | found hnext _ ih =>
    have hlt := work_lt hnext
    exact .found hnext (ih (by omega))

/-! ### The pieces between them -/

/-- **Splitting cuts the text at the separators found.** -/
theorem splitFrom_eq_of_finds (hplain : sep.Plain) (h : sep.Finds n pos further ms) :
    sep.splitFrom n pos further = front s pos ms ++ [rest s pos ms] := by
  induction h with
  | enough => rfl
  | @ended n pos further hnone =>
    cases n with
    | zero => rfl
    | succ n =>
      rw [splitFrom, hnone]
      rfl
  | found hnext _ ih =>
    simp only [splitFrom, hnext, hplain _ _ _ hnext, ih, front_cons, rest_cons, List.cons_append,
      List.nil_append]

/-- **Cutting loses nothing.** The text is made of the pieces in front of the separators, each with its
separator behind it, and the rest. -/
theorem weave_front (h : sep.Finds n pos further ms) :
    (List.zipWith (fun piece m => piece ++ s.extract m.start m.stop) (front s pos ms) ms).flatten ++
      rest s pos ms = s.drop pos := by
  induction h with
  | enough => rfl
  | ended _ => rfl
  | @found n pos further m ms hnext _ ih =>
    obtain ⟨hstart, hstop, -⟩ := sep.inside hnext
    rw [front_cons, rest_cons, List.zipWith_cons_cons, List.flatten_cons, List.append_assoc, ih,
      List.append_assoc, extract_append_drop hstop, extract_append_drop hstart]

/-- Pieces hold nothing that is not in the text. -/
theorem flatten_splitFrom_sublist (hplain : sep.Plain) (n pos : Nat) (further : Bool) :
    (sep.splitFrom n pos further).flatten.Sublist (s.drop pos) := by
  induction n generalizing pos further with
  | zero => simp [splitFrom]
  | succ n ih =>
    rw [splitFrom]
    cases hnext : sep.next? pos further with
    | none => simp
    | some m =>
      obtain ⟨hstart, hstop, -⟩ := sep.inside hnext
      have hlater : (s.drop m.stop).Sublist (s.drop m.start) := by
        rw [← extract_append_drop hstop]
        exact List.sublist_append_right _ _
      simp only [hplain _ _ _ hnext, List.cons_append, List.nil_append, List.flatten_cons]
      rw [← extract_append_drop hstart]
      exact ((ih m.stop _).trans hlater).append_left _

end Separators

namespace Pattern

variable {p : Pattern}

theorem plain_separators (hp : ∀ s hit, p s = some hit → hit.groups = []) (s : Text) :
    (p.separators s).Plain := by
  intro pos further m h
  obtain ⟨i, hit, -, hhit, -, rfl⟩ := findFrom_eq_some_iff.mp (separator?_eq_some h).1
  exact hp _ hit hhit

/-- A run of characters captures nothing. -/
theorem groups_of_run {p : Char → Bool} {s : Text} {h : Hit} (hit : run p s = some h) : h.groups = [] := by
  unfold run at hit
  split at hit
  · exact absurd hit (by simp)
  · obtain rfl := Option.some.inj hit
    rfl

theorem plain_separators_run (p : Char → Bool) (s : Text) : ((run p).separators s).Plain :=
  plain_separators (fun _ _ hit => groups_of_run hit) s

end Pattern

namespace Separators

variable {s : Text} {sep : Separators s}

/-! ### Tokens -/

/-- From two tokens on, a limit bounds the splits. -/
theorem tokenize_add_two (sep : Separators s) (n : Nat) :
    let pieces := sep.splitFrom (n + 1) 0 false
    sep.tokenize (n + 2 : Nat) = .ok (pieces ++ List.replicate (n + 2 - pieces.length) []) := by
  have hbound : ¬ ((n + 2 : Nat) : Int) < 1 := by omega
  have hmany : ((n + 2 : Nat) : Int) ≠ 1 := by omega
  have hsplits : (((n + 2 : Nat) : Int) - 1).toNat = n + 1 := by omega
  rw [tokenize, if_neg hbound, if_neg hmany, hsplits, Int.toNat_natCast]
  rfl

/-- Tokens hold nothing that is not in the text. -/
theorem flatten_sublist_of_tokenize (hplain : sep.Plain) {limit : Int} {tokens : List Text}
    (h : sep.tokenize limit = .ok tokens) : tokens.flatten.Sublist s := by
  unfold tokenize at h
  split at h
  · cases h
  · obtain rfl := Except.ok.inj h
    rw [List.flatten_append, List.flatten_replicate_nil, List.append_nil]
    exact flatten_splitFrom_sublist hplain _ 0 false

theorem tokenize_one (sep : Separators s) :
    let pieces := sep.splitFrom sep.bound 0 false
    sep.tokenize 1 = .ok (pieces ++ List.replicate (1 - pieces.length) []) := rfl

/-- **As many tokens as asked for.** Cutting a text into tokens always succeeds when at least one is asked for.
The tokens are what stands in front of the first separators and what stands behind them, unchanged, filled up
with empty ones. From two tokens on, the separators are one fewer than the tokens asked for, or all if there
are not so many, and the number of tokens is right. For one token the separators are all that there are, and
the number is right only if there is none. -/
theorem tokenize_exact_iff (sep : Separators s) (hplain : sep.Plain) (limit : Int) (hlimit : 1 ≤ limit) :
    ∃ ms tokens, sep.tokenize limit = .ok tokens ∧
      tokens = front s 0 ms ++ rest s 0 ms :: List.replicate (limit.toNat - 1 - ms.length) [] ∧
      sep.Finds (if limit = 1 then ms.length + 1 else limit.toNat - 1) 0 false ms ∧
      (List.zipWith (fun piece m => piece ++ s.extract m.start m.stop) (front s 0 ms) ms).flatten ++
        rest s 0 ms = s ∧
      ((tokens.length : Int) = limit ↔ limit ≠ 1 ∨ sep.next? 0 false = none) := by
  obtain ⟨n, rfl⟩ : ∃ n : Nat, limit = (n + 1 : Nat) := ⟨limit.toNat - 1, by omega⟩
  cases n with
  | zero =>
    -- No split is left to make, but that sets no limit, so the search goes on to its end.
    obtain ⟨ms, hms⟩ := sep.exists_finds sep.bound 0 false
    have hpieces := splitFrom_eq_of_finds hplain hms
    refine ⟨ms, _, tokenize_one sep, ?_, ?_, weave_front hms, ?_⟩
    · simp [hpieces]
    · exact hms.all_of_work_le (Nat.le_refl _)
    · rw [← hms.eq_nil_iff, hpieces, ← List.length_eq_zero_iff]
      simp only [List.length_append, length_front, List.length_singleton, List.length_replicate]
      omega
  | succ n =>
    obtain ⟨ms, hms⟩ := sep.exists_finds (n + 1) 0 false
    have hpieces := splitFrom_eq_of_finds hplain hms
    have hle := hms.length_le
    have hmany : ((n + 1 + 1 : Nat) : Int) ≠ 1 := by omega
    refine ⟨ms, _, tokenize_add_two sep n, ?_, ?_, weave_front hms, ?_⟩
    · rw [hpieces, List.append_assoc, List.singleton_append, List.length_append, length_front,
        List.length_singleton]
      exact congrArg (fun k => front s 0 ms ++ rest s 0 ms :: List.replicate k []) (by omega)
    · rw [if_neg hmany]
      exact hms
    · rw [hpieces]
      simp only [List.length_append, length_front, List.length_singleton, List.length_replicate]
      exact iff_of_true (by omega) (Or.inl hmany)

/-- At the letter x, which may be missing, three tokens come out as three, and one token as many. -/
theorem tokenize_exact_iff_letters :
    let sep := (Pattern.many (· == 'x')).separators "axb".toList
    sep.Plain ∧ (∃ tokens, sep.tokenize 3 = .ok tokens ∧ tokens.length = 3) ∧
      ∃ tokens, sep.tokenize 1 = .ok tokens ∧ tokens.length ≠ 1 := by
  intro sep
  have hplain : sep.Plain := Pattern.plain_separators (fun _ _ hit => Option.some.inj hit ▸ rfl) _
  obtain ⟨-, three, hthree, -, -, -, hexact⟩ := tokenize_exact_iff sep hplain 3 (by decide)
  obtain ⟨-, one, hone, -, -, -, hmore⟩ := tokenize_exact_iff sep hplain 1 (by decide)
  refine ⟨hplain, ⟨three, hthree, ?_⟩, ⟨one, hone, fun hlength => ?_⟩⟩
  · exact Int.ofNat_inj.mp (hexact.mpr (Or.inl (by decide)))
  · rcases hmore.mp (congrArg Int.ofNat hlength) with hne | hnone
    · exact hne rfl
    · exact absurd hnone (by decide)

end Separators

end DocMark
