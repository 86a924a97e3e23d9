import DocMark.Proofs.Scanner

/-!
How a scan goes on and ends.

A scanner answers one call after another, with a match or with none. None is final: the scanner is done then, and
stays done (`call_eq_none_of_exhausted`). For any search at all, the matches that a bounded scan lists are the answers
to as many calls (`getElem?_steps`).

If the search stays inside the text, every match moves the cursor behind its start and its end
(`InText.next_eq_some`). So each match uses up a position of its own, the one past the end included, and no call
behind the bound has a match (`InText.call_eq_none`). Main statement: `course_allMatches`, the calls yield the
listed matches, in order and apart, and then nothing.
-/

namespace DocMark

namespace Scanner

/-- The scanner after `n` calls for the next match. -/
def after (sc : Scanner) : Nat → Scanner
  | 0 => sc
  | n + 1 => sc.next.2.after n

def call (sc : Scanner) (n : Nat) : Option Match := (sc.after n).next.1

theorem after_add (sc : Scanner) (i j : Nat) : sc.after (i + j) = (sc.after i).after j := by
  induction i generalizing sc with
  | zero => rw [Nat.zero_add, after]
  | succ i ih => rw [Nat.add_right_comm, after, ih, after]

theorem call_add (sc : Scanner) (i j : Nat) : sc.call (i + j) = (sc.after i).call j := by
  rw [call, after_add, call]

/-! ### The end of a scan -/

theorem exhausted_iff {sc : Scanner} : sc.exhausted = true ↔ (sc.size : Int) < sc.pos := decide_eq_true_iff

theorem next_of_exhausted {sc : Scanner} (h : sc.exhausted = true) : sc.next = (none, sc) := by
  rw [next, if_pos h]

/-- A scanner that finds nothing is done. -/
theorem exhausted_of_next_eq_none {sc : Scanner} (h : sc.next.1 = none) : sc.next.2.exhausted = true := by
  by_cases hdone : sc.exhausted = true
  · rw [next_of_exhausted hdone]
    exact hdone
  · rw [next, if_neg hdone] at h ⊢
    cases hsearch : sc.search sc.pos with
    | none => exact exhausted_iff.mpr (Int.lt_succ _)
    | some m =>
      rw [hsearch] at h
      cases h

/-- A scanner that is done stays as it is. -/
theorem after_of_exhausted {sc : Scanner} (h : sc.exhausted = true) (n : Nat) : sc.after n = sc := by
  induction n with
  | zero => rfl
  | succ n ih => rw [after, next_of_exhausted h, ih]

/-- An exhausted scanner yields nothing more. -/
theorem call_eq_none_of_exhausted {sc : Scanner} (h : sc.exhausted = true) (n : Nat) : sc.call n = none := by
  rw [call, after_of_exhausted h, next_of_exhausted h]

/-- Behind a call without a match the scanner is done. -/
theorem exhausted_after {sc : Scanner} {i : Nat} (h : sc.call i = none) : (sc.after (i + 1)).exhausted = true := by
  rw [after_add]
  exact exhausted_of_next_eq_none h

/-- **A bounded scan lists the answers** to its calls. -/
theorem getElem?_steps (sc : Scanner) (n i : Nat) :
    ((sc.steps n).map (·.1))[i]? = if i < n then sc.call i else none := by
  induction n generalizing sc i with
  | zero => rfl
  | succ n ih =>
    rw [steps]
    cases hnext : sc.next with
    | mk found sc' =>
      cases found with
      | none =>
        -- The scan stops here, and a later call would have no match.
        have hdone := exhausted_of_next_eq_none (show sc.next.1 = none by rw [hnext])
        rw [hnext] at hdone
        have hcall : sc.call i = none := by
          cases i with
          | zero => rw [call, after, hnext]
          | succ i => rw [call, after, hnext, ← call, call_eq_none_of_exhausted hdone]
        rw [hcall, ite_self]
        rfl
      | some m =>
        cases i with
        | zero => simp [call, after, hnext]
        | succ i =>
          have hcall : sc.call (i + 1) = sc'.call i := by rw [call, after, hnext, call]
          simp [hcall, ← ih]

/-! ### Searches that stay inside the text -/

/-- What the search finds from a position in the text, or before it, starts there or later and ends in the text.
From positions past the end nothing is asked. -/
def InText (sc : Scanner) : Prop :=
  ∀ (p : Int) (m : Match), p ≤ sc.size → sc.search p = some m →
    p ≤ m.start ∧ m.start ≤ m.stop ∧ m.stop ≤ sc.size

/-- A call moves the cursor and nothing else. -/
theorem search_next (sc : Scanner) : sc.next.2.search = sc.search ∧ sc.next.2.size = sc.size := by
  unfold next
  split
  · exact ⟨rfl, rfl⟩
  · split <;> exact ⟨rfl, rfl⟩

namespace InText

variable {sc : Scanner}

/-- **One match** starts at the cursor or later, and moves it behind its start and its end. -/
theorem next_eq_some (h : sc.InText) {m : Match} (hm : sc.next.1 = some m) :
    sc.pos ≤ m.start ∧ m.start ≤ sc.size ∧ (m.start : Int) < sc.next.2.pos ∧ (m.stop : Int) ≤ sc.next.2.pos := by
  by_cases hdone : sc.exhausted = true
  · rw [next_of_exhausted hdone] at hm
    cases hm
  · have hpos : sc.pos ≤ sc.size := by simpa [exhausted_iff] using hdone
    rw [next, if_neg hdone] at hm ⊢
    cases hsearch : sc.search sc.pos with
    | none =>
      rw [hsearch] at hm
      cases hm
    | some found =>
      rw [hsearch] at hm
      obtain rfl : found = m := Option.some.inj hm
      obtain ⟨hstart, hspan, hstop⟩ := h sc.pos found hpos hsearch
      refine ⟨hstart, Nat.le_trans hspan hstop, ?_⟩
      dsimp only
      split <;> omega

theorem next (h : sc.InText) : sc.next.2.InText := by
  obtain ⟨hsearch, hsize⟩ := search_next sc
  rw [InText, hsearch, hsize]
  exact h

theorem after (h : sc.InText) (n : Nat) : (sc.after n).InText := by
  induction n generalizing sc with
  | zero => exact h
  | succ n ih => exact ih h.next

/-- A match uses up at least one of the positions that are left. -/
theorem bound_next_lt (h : sc.InText) {m : Match} (hm : sc.next.1 = some m) : sc.next.2.bound < sc.bound := by
  obtain ⟨hstart, hinside, hbehind, -⟩ := h.next_eq_some hm
  rw [bound, bound, (search_next sc).2]
  omega

/-- **No call behind the bound has a match.** -/
theorem call_eq_none (h : sc.InText) {i : Nat} (hi : sc.bound ≤ i) : sc.call i = none := by
  induction i generalizing sc with
  | zero =>
    refine call_eq_none_of_exhausted (exhausted_iff.mpr ?_) 0
    rw [bound] at hi
    omega
  | succ i ih =>
    cases hm : sc.next.1 with
    | none => exact call_eq_none_of_exhausted (exhausted_of_next_eq_none hm) i
    | some m =>
      have hless := h.bound_next_lt hm
      exact ih h.next (by omega)

/-- The matches in the list are the answers to the calls. -/
theorem getElem?_allMatches (h : sc.InText) (i : Nat) : sc.allMatches[i]? = sc.call i := by
  rw [allMatches, getElem?_steps]
  split
  · rfl
  · rename_i hi
    exact (h.call_eq_none (Nat.le_of_not_lt hi)).symm

/-- **A scan goes forward**: every match starts at the cursor or later, behind the start and the end of each match
before it. -/
theorem pairwise_steps (h : sc.InText) (n : Nat) :
    ((sc.steps n).map (·.1)).Pairwise (fun m m' => m.start < m'.start ∧ m.stop ≤ m'.start) ∧
      ∀ m ∈ (sc.steps n).map (·.1), sc.pos ≤ m.start := by
  induction n generalizing sc with
  | zero => exact ⟨.nil, fun m hm => absurd hm List.not_mem_nil⟩
  | succ n ih =>
    rw [steps]
    cases hnext : sc.next with
    | mk found sc' =>
      cases found with
      | none => exact ⟨.nil, fun m hm => absurd hm List.not_mem_nil⟩
      | some m =>
        obtain ⟨hstart, -, hbehind, hend⟩ := h.next_eq_some (m := m) (by rw [hnext])
        obtain ⟨hlater, hfrom⟩ := ih h.next
        rw [hnext] at hbehind hend hlater hfrom
        rw [List.map_cons]
        refine ⟨List.pairwise_cons.mpr ⟨fun m' hm' => ?_, hlater⟩, fun m' hm' => ?_⟩
        · have hcursor := hfrom m' hm'
          dsimp only at hbehind hend hcursor ⊢
          omega
        · rcases List.mem_cons.mp hm' with rfl | hrest
          · exact hstart
          · have hcursor := hfrom m' hrest
            dsimp only at hbehind hcursor
            omega

/-- A match moves the cursor on. -/
theorem pos_lt_next (h : sc.InText) {m : Match} (hm : sc.next.1 = some m) : sc.pos < sc.next.2.pos := by
  obtain ⟨hstart, -, hbehind, -⟩ := h.next_eq_some hm
  omega

end InText

/-! ### Whole scans -/

/-- The calls of a scanner yield the matches `ms` and then nothing. -/
structure Course (sc : Scanner) (ms : List Match) : Prop where
  /-- The matches are yielded one after another, and no later call yields anything. -/
  call_eq : ∀ i, sc.call i = ms[i]?
  /-- There is at most one match for each position from the cursor to the end of the text, which is a position
  too. So there is none from a cursor past the end. -/
  length_le : ms.length ≤ sc.size + 1 - sc.pos.toNat
  /-- No two matches start at one position. -/
  start_lt : ms.Pairwise fun m m' => m.start < m'.start
  /-- No match begins before the end of another one. -/
  apart : ms.Pairwise fun m m' => m.stop ≤ m'.start
  /-- Every match moves the cursor on. -/
  pos_lt : ∀ i < ms.length, (sc.after i).pos < (sc.after (i + 1)).pos
  /-- The first call without a match ends the scan. -/
  exhausted : ∀ i, ms.length < i → (sc.after i).exhausted = true
  /-- Listing matches goes on where the calls stopped. -/
  steps_eq : ∀ i n, ((sc.after i).steps n).map (·.1) = (ms.drop i).take n

/-- **A scan ends and yields no position twice**, for any search that stays inside the text and from any position. -/
theorem course_allMatches (sc : Scanner) (h : sc.InText) : sc.Course sc.allMatches := by
  have hcall : ∀ i, sc.call i = sc.allMatches[i]? := fun i => (h.getElem?_allMatches i).symm
  obtain ⟨hpairs, -⟩ := h.pairwise_steps sc.bound
  refine ⟨hcall, ?_, hpairs.imp And.left, hpairs.imp And.right, fun i hi => ?_, fun i hi => ?_, fun i n => ?_⟩
  · have hlast : sc.allMatches[sc.bound]? = none := by rw [← hcall, h.call_eq_none (Nat.le_refl _)]
    exact List.getElem?_eq_none_iff.mp hlast
  · rw [after_add]
    exact (h.after i).pos_lt_next ((hcall i).trans (List.getElem?_eq_getElem hi))
  · have hnone : sc.call (i - 1) = none := by
      rw [hcall, List.getElem?_eq_none_iff]
      omega
    simpa [Nat.sub_add_cancel (Nat.one_le_of_lt hi)] using exhausted_after hnone
  · refine List.ext_getElem? fun j => ?_
    rw [getElem?_steps, List.getElem?_take, List.getElem?_drop, ← hcall, call_add]

/-- A scanner of a pattern searches inside its text, if the pattern takes no more than there is. -/
theorem inText_ofPattern {p : Pattern} (hp : ∀ s hit, p s = some hit → hit.size ≤ s.length) (t : Text) (pos : Int) :
    (ofPattern p t pos).InText := by
  intro q m hq hm
  change q ≤ t.length at hq
  have hfind : p.find t q.toNat = some m := hm
  obtain ⟨i, hit, hle, hhit, -, hi, rfl⟩ := (Pattern.find_eq_some_iff (by omega)).mp hfind
  have hsize := hp _ _ hhit
  rw [List.length_drop] at hsize
  change q ≤ i ∧ i ≤ i + hit.size ∧ i + hit.size ≤ t.length
  omega

/-- Runs of a letter, which may be empty, from before the text: one inside, one right behind it, and one at either
end of the text. -/
theorem course_allMatches_letters :
    let sc := ofPattern (Pattern.many (· == 'x')) "axxb".toList (-2)
    sc.InText ∧ sc.allMatches.map (fun m => (m.start, m.stop)) = [(0, 0), (1, 3), (3, 3), (4, 4)] ∧
      sc.call 7 = none ∧ (sc.after 5).exhausted = true ∧ (sc.after 5).steps 9 = [] := by
  intro sc
  have hin : sc.InText := by
    refine inText_ofPattern (fun s hit hhit => ?_) _ _
    obtain rfl := Option.some.inj hhit
    exact (List.takeWhile_sublist _).length_le
  have hcourse := course_allMatches sc hin
  have hlisted : sc.allMatches.map (fun m => (m.start, m.stop)) = [(0, 0), (1, 3), (3, 3), (4, 4)] := by decide
  have hlength : sc.allMatches.length = 4 := by simpa using congrArg List.length hlisted
  refine ⟨hin, hlisted, ?_, hcourse.exhausted 5 (by omega), ?_⟩
  · rw [hcourse.call_eq, List.getElem?_eq_none_iff]
    omega
  · have hrest := hcourse.steps_eq 5 9
    rw [List.drop_eq_nil_of_le (by omega), List.take_nil] at hrest
    exact List.map_eq_nil_iff.mp hrest

end Scanner

end DocMark
