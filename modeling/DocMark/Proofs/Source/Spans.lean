import Mathlib.Data.Nat.Find
import DocMark.Source.Section
import DocMark.Proofs.Scanner

/-!
Where the comments of a source text stand.

`IsComment t s` says, by positions alone, that the span `s` is a comment with its declaration run, and
`Leftmost t pos` lists the comments that are met when one always takes the next one at or after the end
of the one before. These two are the meaning of the section pattern and of the scanner over it:

* `sectionPattern_eq_some_iff`: the pattern hits at a position exactly when a comment starts there, and
  captures its body and its run.
* `allMatches_sectionPattern`: the scanner yields the comments of `Leftmost`, whose list is unique
  (`Leftmost.unique`) and always exists (`exists_leftmost`).
-/

namespace DocMark.Source

/-! ### Comments by position -/

/-- A comment can close at `j`: a star and a slash stand there, and a character that a declaration run
can hold stands behind them. -/
def ClosesAt (t : Text) (j : Nat) : Prop :=
  "*/".toList <+: t.drop j ∧ ∃ c, t[j + 2]? = some c ∧ isRunChar c = true

/-- The positions of a comment: where it starts, where its end mark stands, and where the declaration
run behind it stops. -/
structure Span where
  start : Nat
  close : Nat
  stop : Nat
deriving DecidableEq, Repr

namespace Span

/-- The comment body: all between the opening and the end mark. -/
def body (t : Text) (s : Span) : Text := t.extract (s.start + 3) s.close

/-- The declaration run: all between the end mark and the stop. -/
def run (t : Text) (s : Span) : Text := t.extract (s.close + 2) s.stop

def line (t : Text) (s : Span) : Text := Text.strip (s.run t)

def toMatch (t : Text) (s : Span) : Match :=
  ⟨s.start, s.stop, t.extract s.start s.stop, [s.body t, s.run t]⟩

end Span

/-- The span `s` of the text `t` is a comment with its declaration run. The comment closes at the first
place where it can, and the run goes on as long as it can. -/
structure IsComment (t : Text) (s : Span) : Prop where
  opens : "/**".toList <+: t.drop s.start
  open_le_close : s.start + 3 ≤ s.close
  closes : ClosesAt t s.close
  closes_first : ∀ j, s.start + 3 ≤ j → ClosesAt t j → s.close ≤ j
  close_le_stop : s.close + 2 ≤ s.stop
  run_chars : ∀ k, s.close + 2 ≤ k → k < s.stop → ∃ c, t[k]? = some c ∧ isRunChar c = true
  run_stops : ∀ c, t[s.stop]? = some c → isRunChar c = false

/-- The comments from position `pos` on, each one the first that starts at or after the stop of the one
before. -/
inductive Leftmost (t : Text) : (pos : Nat) → List Span → Prop where
  | done {pos : Nat} : (∀ s, IsComment t s → s.start < pos) → Leftmost t pos []
  | next {pos : Nat} {s : Span} {rest : List Span} :
      IsComment t s → pos ≤ s.start →
      (∀ s', IsComment t s' → pos ≤ s'.start → s.start ≤ s'.start) →
      Leftmost t s.stop rest → Leftmost t pos (s :: rest)

theorem not_closesAt_nil (j : Nat) : ¬ ClosesAt [] j := by
  rintro ⟨-, c, hc, -⟩
  simp at hc

theorem closesAt_cons_succ {c : Char} {r : Text} {j : Nat} :
    ClosesAt (c :: r) (j + 1) ↔ ClosesAt r j := by
  simp [ClosesAt, show j + 1 + 2 = (j + 2) + 1 from by omega]

theorem closesAt_drop {t : Text} {i j : Nat} : ClosesAt (t.drop i) j ↔ ClosesAt t (i + j) := by
  simp [ClosesAt, List.getElem?_drop, Nat.add_assoc]

theorem closesAt_zero_iff {c : Char} {r : Text} :
    ClosesAt (c :: r) 0 ↔
      ∃ d rest, c :: r = '*' :: '/' :: d :: rest ∧ isRunChar d = true := by
  constructor
  · rintro ⟨⟨rest, hrest⟩, d, hd, hrun⟩
    rw [List.drop_zero] at hrest
    rw [← hrest] at hd
    cases rest with
    | nil => simp at hd
    | cons e rest =>
      have he : e = d := by simpa using hd
      subst he
      exact ⟨e, rest, hrest.symm, hrun⟩
  · rintro ⟨d, rest, heq, hrun⟩
    rw [heq]
    exact ⟨⟨d :: rest, rfl⟩, d, rfl, hrun⟩

/-! ### The section pattern -/

/-- The body of a comment ends at the first place where the comment can close, and the run is the
longest one behind it. -/
theorem bodyAndRun?_eq_some_iff {s body run : Text} :
    bodyAndRun? s = some (body, run) ↔
      ∃ j, ClosesAt s j ∧ (∀ j', ClosesAt s j' → j ≤ j') ∧
        body = s.take j ∧ run = (s.drop (j + 2)).takeWhile isRunChar := by
  induction s generalizing body run with
  | nil =>
    simp only [bodyAndRun?, reduceCtorEq, false_iff]
    rintro ⟨j, hj, -⟩
    exact not_closesAt_nil j hj
  | cons c r ih =>
    by_cases hclose : ClosesAt (c :: r) 0
    · obtain ⟨d, rest, heq, hrun⟩ := closesAt_zero_iff.mp hclose
      have hhere : bodyAndRun? (c :: r) = some ([], (d :: rest).takeWhile isRunChar) := by
        rw [heq]
        simp [bodyAndRun?, List.isPrefixOf?, hrun]
      rw [hhere]
      constructor
      · intro h
        cases h
        exact ⟨0, hclose, fun j' _ => Nat.zero_le j', rfl, by rw [heq]; rfl⟩
      · rintro ⟨j, -, hleast, rfl, rfl⟩
        have hj : j = 0 := Nat.le_zero.mp (hleast 0 hclose)
        subst hj
        rw [heq]
        rfl
    · have hlater : bodyAndRun? (c :: r) =
          (bodyAndRun? r).map fun p => (c :: p.1, p.2) := by
        rw [bodyAndRun?]
        split
        · rename_i d rest hpre
          rw [List.isPrefixOf?_eq_some_iff_append_eq] at hpre
          have hd : isRunChar d ≠ true := fun hrun =>
            hclose (closesAt_zero_iff.mpr ⟨d, rest, hpre.symm, hrun⟩)
          rw [if_neg hd]
        · rfl
      rw [hlater, Option.map_eq_some_iff]
      constructor
      · rintro ⟨⟨body', run'⟩, h, hpair⟩
        cases hpair
        obtain ⟨j, hj, hleast, rfl, rfl⟩ := ih.mp h
        refine ⟨j + 1, closesAt_cons_succ.mpr hj, ?_, rfl, rfl⟩
        intro j' hj'
        cases j' with
        | zero => exact absurd hj' hclose
        | succ j' => exact Nat.succ_le_succ (hleast j' (closesAt_cons_succ.mp hj'))
      · rintro ⟨j, hj, hleast, rfl, rfl⟩
        cases j with
        | zero => exact absurd hj hclose
        | succ j =>
          refine ⟨(r.take j, (r.drop (j + 2)).takeWhile isRunChar), ih.mpr ?_, rfl⟩
          refine ⟨j, closesAt_cons_succ.mp hj, ?_, rfl, rfl⟩
          intro j' hj'
          exact Nat.le_of_succ_le_succ (hleast (j' + 1) (closesAt_cons_succ.mpr hj'))

/-- The length of the longest run of a class, by positions. -/
theorem length_takeWhile_eq_iff {p : Char → Bool} {u : Text} {n : Nat} :
    (u.takeWhile p).length = n ↔
      (∀ k < n, ∃ c, u[k]? = some c ∧ p c = true) ∧ ∀ c, u[n]? = some c → p c = false := by
  induction u generalizing n with
  | nil =>
    constructor
    · intro h
      subst h
      simp
    · rintro ⟨hrun, -⟩
      cases n with
      | zero => rfl
      | succ n =>
        obtain ⟨c, hc, -⟩ := hrun 0 (Nat.succ_pos n)
        simp at hc
  | cons a u ih =>
    by_cases ha : p a = true
    · rw [List.takeWhile_cons_of_pos ha, List.length_cons]
      cases n with
      | zero => simp [ha]
      | succ n =>
        rw [Nat.add_right_cancel_iff, ih]
        constructor
        · rintro ⟨hrun, hstop⟩
          refine ⟨?_, hstop⟩
          intro k hk
          cases k with
          | zero => exact ⟨a, rfl, ha⟩
          | succ k => exact hrun k (Nat.lt_of_succ_lt_succ hk)
        · rintro ⟨hrun, hstop⟩
          exact ⟨fun k hk => hrun (k + 1) (Nat.succ_lt_succ hk), hstop⟩
    · rw [List.takeWhile_cons_of_neg ha, List.length_nil]
      constructor
      · intro h
        subst h
        simpa using ha
      · rintro ⟨hrun, -⟩
        cases n with
        | zero => rfl
        | succ n =>
          obtain ⟨c, hc, hp⟩ := hrun 0 (Nat.succ_pos n)
          have hca : a = c := by simpa using hc
          exact absurd (hca ▸ hp) ha

/-- Two positions bound a run exactly if it is the longest one from the first. -/
theorem run_bounds_iff {t : Text} {a b : Nat} (hab : a ≤ b) :
    ((∀ k, a ≤ k → k < b → ∃ c, t[k]? = some c ∧ isRunChar c = true) ∧
      ∀ c, t[b]? = some c → isRunChar c = false) ↔
      b = a + ((t.drop a).takeWhile isRunChar).length := by
  have hlen : b = a + ((t.drop a).takeWhile isRunChar).length ↔
      ((t.drop a).takeWhile isRunChar).length = b - a := by omega
  rw [hlen, length_takeWhile_eq_iff]
  simp only [List.getElem?_drop, Nat.add_sub_cancel' hab]
  constructor
  · rintro ⟨hrun, hstop⟩
    exact ⟨fun k hk => hrun (a + k) (Nat.le_add_right a k) (by omega), hstop⟩
  · rintro ⟨hrun, hstop⟩
    refine ⟨?_, hstop⟩
    intro k hak hkb
    have hk := hrun (k - a) (by omega)
    rwa [Nat.add_sub_cancel' hak] at hk

namespace IsComment

variable {t : Text} {s s' : Span}

theorem stop_eq (h : IsComment t s) :
    s.stop = s.close + 2 + ((t.drop (s.close + 2)).takeWhile isRunChar).length :=
  (run_bounds_iff h.close_le_stop).mp ⟨h.run_chars, h.run_stops⟩

/-- Where a comment starts decides the rest. -/
theorem eq_of_start_eq (h : IsComment t s) (h' : IsComment t s') (hstart : s.start = s'.start) :
    s = s' := by
  have hclose : s.close = s'.close :=
    Nat.le_antisymm
      (h.closes_first s'.close (hstart ▸ h'.open_le_close) h'.closes)
      (h'.closes_first s.close (hstart ▸ h.open_le_close) h.closes)
  have hstop : s.stop = s'.stop := by rw [h.stop_eq, h'.stop_eq, hclose]
  cases s
  cases s'
  simp_all

theorem run_eq (h : IsComment t s) : s.run t = (t.drop (s.close + 2)).takeWhile isRunChar := by
  rw [Span.run, List.extract_eq_take_drop, h.stop_eq, Nat.add_sub_cancel_left]
  exact (List.prefix_iff_eq_take.mp (List.takeWhile_prefix isRunChar)).symm

theorem close_add_two_lt (h : IsComment t s) : s.close + 2 < t.length := by
  obtain ⟨-, c, hc, -⟩ := h.closes
  exact (List.getElem?_eq_some_iff.mp hc).1

theorem start_lt_stop (h : IsComment t s) : s.start < s.stop := by
  have h1 := h.open_le_close
  have h2 := h.close_le_stop
  omega

theorem stop_le_length (h : IsComment t s) : s.stop ≤ t.length := by
  have hlt := h.close_add_two_lt
  have hrun : ((t.drop (s.close + 2)).takeWhile isRunChar).length ≤ (t.drop (s.close + 2)).length :=
    (List.takeWhile_prefix isRunChar).length_le
  rw [List.length_drop] at hrun
  rw [h.stop_eq]
  omega

theorem length_body (h : IsComment t s) : (s.body t).length = s.close - (s.start + 3) := by
  have hlt := h.close_add_two_lt
  rw [Span.body, List.extract_eq_take_drop, List.length_take, List.length_drop]
  omega

end IsComment

/-- **The section pattern hits where a comment starts**, and captures its body and its run. -/
theorem sectionPattern_eq_some_iff {t : Text} {i : Nat} {h : Hit} :
    sectionPattern (t.drop i) = some h ↔
      ∃ s, IsComment t s ∧ s.start = i ∧ h = ⟨s.stop - s.start, [s.body t, s.run t]⟩ := by
  constructor
  · intro hhit
    cases hopen : "/**".toList.isPrefixOf? (t.drop i) with
    | none => simp only [sectionPattern, hopen, Option.bind_none, reduceCtorEq] at hhit
    | some rest =>
      have hrest := List.isPrefixOf?_eq_some_iff_append_eq.mp hopen
      have hdrop : t.drop (i + 3) = rest := by
        rw [← List.drop_drop, ← hrest]
        rfl
      cases hbody : bodyAndRun? rest with
      | none => simp only [sectionPattern, hopen, hbody, Option.bind_some, reduceCtorEq] at hhit
      | some p =>
        obtain ⟨body, run⟩ := p
        obtain ⟨j, hj, hleast, rfl, rfl⟩ := bodyAndRun?_eq_some_iff.mp hbody
        rw [← hdrop] at hj hleast
        simp only [closesAt_drop] at hj hleast
        have hcomment : IsComment t ⟨i, i + 3 + j, i + 3 + j + 2 +
            ((t.drop (i + 3 + j + 2)).takeWhile isRunChar).length⟩ := by
          have hbounds := (run_bounds_iff (t := t) (Nat.le_add_right (i + 3 + j + 2)
            ((t.drop (i + 3 + j + 2)).takeWhile isRunChar).length)).mpr rfl
          exact
            { opens := ⟨rest, hrest⟩
              open_le_close := Nat.le_add_right (i + 3) j
              closes := hj
              closes_first := by
                intro j' (hle : i + 3 ≤ j') hj'
                have hfirst := hleast (j' - (i + 3)) (by rwa [Nat.add_sub_cancel' hle])
                change i + 3 + j ≤ j'
                omega
              close_le_stop := Nat.le_add_right _ _
              run_chars := hbounds.1
              run_stops := hbounds.2 }
        refine ⟨_, hcomment, rfl, ?_⟩
        have hlen := hcomment.length_body
        have hb : Span.body t ⟨i, i + 3 + j, i + 3 + j + 2 +
            ((t.drop (i + 3 + j + 2)).takeWhile isRunChar).length⟩ = rest.take j := by
          rw [Span.body, List.extract_eq_take_drop, hdrop]
          simp
        have hr : rest.drop (j + 2) = t.drop (i + 3 + j + 2) := by
          rw [← hdrop, List.drop_drop, Nat.add_assoc (i + 3)]
        rw [hcomment.run_eq, hb]
        rw [hb] at hlen
        simp only [sectionPattern, hopen, hbody, Option.bind_some, Option.some.injEq] at hhit
        rw [← hhit, hr, hlen]
        simp only [Hit.mk.injEq, and_true]
        omega
  · rintro ⟨s, hs, rfl, rfl⟩
    obtain ⟨rest, hrest⟩ := hs.opens
    have hopen : "/**".toList.isPrefixOf? (t.drop s.start) = some rest :=
      List.isPrefixOf?_eq_some_iff_append_eq.mpr hrest
    have hdrop : t.drop (s.start + 3) = rest := by
      rw [← List.drop_drop, ← hrest]
      rfl
    have hle := hs.open_le_close
    have hbody : bodyAndRun? rest = some (s.body t, s.run t) := by
      refine bodyAndRun?_eq_some_iff.mpr ⟨s.close - (s.start + 3), ?_, ?_, ?_, ?_⟩
      · rw [← hdrop, closesAt_drop, Nat.add_sub_cancel' hle]
        exact hs.closes
      · intro j' hj'
        rw [← hdrop, closesAt_drop] at hj'
        have := hs.closes_first _ (Nat.le_add_right _ _) hj'
        omega
      · rw [Span.body, List.extract_eq_take_drop, hdrop]
      · rw [hs.run_eq, ← hdrop, List.drop_drop,
          show s.start + 3 + (s.close - (s.start + 3) + 2) = s.close + 2 by omega]
    simp only [sectionPattern, hopen, hbody, Option.bind_some, Option.some.injEq, Hit.mk.injEq,
      and_true]
    rw [hs.length_body, hs.run_eq]
    have hstop := hs.stop_eq
    omega

/-- The pattern hits exactly where comments start. -/
theorem sectionPattern_eq_none_iff {t : Text} {i : Nat} :
    sectionPattern (t.drop i) = none ↔ ∀ s, IsComment t s → s.start ≠ i := by
  constructor
  · intro hnone s hs hi
    have hsome := sectionPattern_eq_some_iff.mpr ⟨s, hs, hi, rfl⟩
    rw [hnone] at hsome
    exact absurd hsome (by simp)
  · intro h
    cases hhit : sectionPattern (t.drop i) with
    | none => rfl
    | some hit =>
      obtain ⟨s, hs, hi, -⟩ := sectionPattern_eq_some_iff.mp hhit
      exact absurd hi (h s hs)

/-! ### The successive comments -/

/-- The list of successive comments is unique. -/
theorem Leftmost.unique {t : Text} {pos : Nat} {spans spans' : List Span}
    (h : Leftmost t pos spans) (h' : Leftmost t pos spans') : spans = spans' := by
  induction h generalizing spans' with
  | done hnone =>
    cases h' with
    | done => rfl
    | next hs hpos =>
      have := hnone _ hs
      omega
  | next hs hpos hleast _ ih =>
    cases h' with
    | done hnone =>
      have := hnone _ hs
      omega
    | next hs' hpos' hleast' hrest' =>
      have hstart := Nat.le_antisymm (hleast _ hs' hpos') (hleast' _ hs hpos)
      obtain rfl := hs.eq_of_start_eq hs' hstart
      rw [ih hrest']

/-- There is a list of successive comments from every position. -/
theorem exists_leftmost (t : Text) (pos : Nat) : ∃ spans, Leftmost t pos spans := by
  classical
  induction hn : t.length + 1 - pos using Nat.strong_induction_on generalizing pos with
  | _ n ih =>
    by_cases hex : ∃ i, ∃ s, IsComment t s ∧ pos ≤ s.start ∧ s.start = i
    · obtain ⟨s, hs, hpos, hstart⟩ := Nat.find_spec hex
      have hlt := hs.start_lt_stop
      have hle := hs.stop_le_length
      obtain ⟨rest, hrest⟩ := ih (t.length + 1 - s.stop) (by omega) s.stop rfl
      refine ⟨s :: rest, .next hs hpos ?_ hrest⟩
      intro s' hs' hpos'
      exact hstart ▸ Nat.find_min' hex ⟨s', hs', hpos', rfl⟩
    · refine ⟨[], .done ?_⟩
      intro s hs
      by_contra hlt
      exact hex ⟨s.start, s, hs, by omega, rfl⟩

/-- The search finds the next comment. -/
theorem find_sectionPattern_eq_some {t : Text} {pos : Nat} {s : Span} (hs : IsComment t s)
    (hpos : pos ≤ s.start) (hleast : ∀ s', IsComment t s' → pos ≤ s'.start → s.start ≤ s'.start) :
    sectionPattern.find t pos = some (s.toMatch t) := by
  have hlt := hs.start_lt_stop
  have hle := hs.stop_le_length
  rw [Pattern.find_eq_some_iff (by omega)]
  refine ⟨s.start, _, hpos, sectionPattern_eq_some_iff.mpr ⟨s, hs, rfl, rfl⟩, ?_, by omega, ?_⟩
  · intro i hi hlt'
    apply sectionPattern_eq_none_iff.mpr
    intro s' hs' hstart
    have := hleast s' hs' (hstart ▸ hi)
    omega
  · simp only [Span.toMatch, Pattern.foundAt, List.extract_eq_take_drop, Match.mk.injEq, true_and,
      and_true]
    omega

/-- Behind the last comment the search finds nothing. -/
theorem find_sectionPattern_eq_none {t : Text} {pos : Nat} (hpos : pos ≤ t.length)
    (hnone : ∀ s, IsComment t s → s.start < pos) : sectionPattern.find t pos = none := by
  rw [Pattern.find_eq_none_iff hpos]
  intro i hi
  apply sectionPattern_eq_none_iff.mpr
  intro s hs hstart
  have := hnone s hs
  omega

/-- A scanner that may still take enough steps yields all successive comments. -/
theorem steps_sectionPattern {t : Text} {pos : Nat} {spans : List Span}
    (h : Leftmost t pos spans) (hpos : pos ≤ t.length) (n : Nat) (hn : t.length + 1 - pos ≤ n) :
    ((Scanner.ofPattern sectionPattern t pos).steps n).map (·.1) = spans.map (Span.toMatch t) := by
  induction h generalizing n with
  | done hnone =>
    rw [Scanner.steps_of_find_eq_none n (find_sectionPattern_eq_none hpos hnone)]
    rfl
  | @next pos s rest hs hle hleast _ ih =>
    have hlt := hs.start_lt_stop
    have hstop := hs.stop_le_length
    cases n with
    | zero => omega
    | succ n =>
      rw [Scanner.steps_of_find_eq_some n hpos (find_sectionPattern_eq_some hs hle hleast) hlt,
        List.map_cons, List.map_cons]
      exact congrArg (s.toMatch t :: ·) (ih hstop n (by omega))

/-- **The scanner yields the successive comments**, in order and nothing else. -/
theorem allMatches_sectionPattern {t : Text} {spans : List Span} (h : Leftmost t 0 spans) :
    (Scanner.ofPattern sectionPattern t).allMatches = spans.map (Span.toMatch t) :=
  steps_sectionPattern h (Nat.zero_le _) _ (Nat.le_refl _)

namespace Leftmost

variable {t : Text} {pos : Nat} {spans : List Span}

theorem isComment (h : Leftmost t pos spans) {s : Span} (hs : s ∈ spans) : IsComment t s := by
  induction h with
  | done => cases hs
  | next hc _ _ _ ih =>
    rcases List.mem_cons.mp hs with rfl | hs
    · exact hc
    · exact ih hs

theorem pos_le_start (h : Leftmost t pos spans) {s : Span} (hs : s ∈ spans) : pos ≤ s.start := by
  induction h with
  | done => cases hs
  | next hc hpos _ _ ih =>
    rcases List.mem_cons.mp hs with rfl | hs
    · exact hpos
    · have hlt := hc.start_lt_stop
      have hstop := ih hs
      omega

/-- Successive comments do not overlap. -/
theorem pairwise (h : Leftmost t pos spans) : spans.Pairwise fun a b => a.stop ≤ b.start := by
  induction h with
  | done => exact List.Pairwise.nil
  | next _ _ _ hrest ih => exact List.Pairwise.cons (fun s hs => hrest.pos_le_start hs) ih

/-- No comment is missed: one that is not listed starts inside a listed one. -/
theorem covers (h : Leftmost t pos spans) {s : Span} (hs : IsComment t s) (hpos : pos ≤ s.start) :
    s ∈ spans ∨ ∃ s' ∈ spans, s'.start < s.start ∧ s.start < s'.stop := by
  induction h with
  | done hnone =>
    have hlt := hnone s hs
    omega
  | @next pos first rest hc _ hleast _ ih =>
    have hle := hleast s hs hpos
    by_cases hlater : first.stop ≤ s.start
    · rcases ih hlater with hmem | ⟨s', hs', hin⟩
      · exact Or.inl (List.mem_cons_of_mem first hmem)
      · exact Or.inr ⟨s', List.mem_cons_of_mem first hs', hin⟩
    · by_cases hstart : first.start = s.start
      · obtain rfl := hc.eq_of_start_eq hs hstart
        exact Or.inl List.mem_cons_self
      · exact Or.inr ⟨first, List.mem_cons_self, by omega, by omega⟩

end Leftmost

end DocMark.Source
