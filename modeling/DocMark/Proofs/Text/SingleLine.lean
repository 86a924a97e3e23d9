import DocMark.Proofs.Text.CleanForm
import DocMark.Source.Declaration

/-!
The form of clean single lines.

On a single line every break has become a space. This is done to a clean line, where breaks may still be
neighbours, and neighbouring breaks become neighbouring spaces. So a single line has ink at both ends and no
break (`head?_cleanSingleLine`, `not_isBreak_of_mem_cleanSingleLine`), but it has two spaces side by side
exactly when the trimmed text has two breaks with nothing but spaces between them
(`double_space_cleanSingleLine_iff`), and only then cleaning it once more changes it
(`cleanSingleLine_idempotent_iff`).
-/

namespace DocMark.Text

/-- Two breaks with nothing but spaces between them. -/
def HasBreakRun (s : Text) : Prop :=
  ∃ x a gap b y, s = x ++ a :: (gap ++ b :: y) ∧ isBreak a = true ∧ isBreak b = true ∧ ∀ c ∈ gap, c = ' '

theorem ne_space_of_isBreak {c : Char} (h : isBreak c = true) : c ≠ ' ' := by
  rintro rfl
  cases h

/-- Spaces aside, the two breaks are neighbours. -/
theorem hasBreakRun_iff_unspaced {s : Text} :
    HasBreakRun s ↔ ∃ x a b y, unspaced s = x ++ a :: b :: y ∧ isBreak a = true ∧ isBreak b = true := by
  constructor
  · rintro ⟨x, a, gap, b, y, rfl, ha, hb, hgap⟩
    have hnone : gap.filter (· != ' ') = [] := List.filter_eq_nil_iff.mpr fun c hc => by simp [hgap c hc]
    refine ⟨unspaced x, a, b, unspaced y, ?_, ha, hb⟩
    rw [unspaced, List.filter_append, List.filter_cons_of_pos (by simpa using ne_space_of_isBreak ha),
      List.filter_append, hnone, List.nil_append,
      List.filter_cons_of_pos (by simpa using ne_space_of_isBreak hb), unspaced, unspaced]
  · rintro ⟨x, a, b, y, h, ha, hb⟩
    obtain ⟨front, back, rfl, -, hback⟩ := List.filter_eq_append_iff.mp h
    obtain ⟨lead, behind, rfl, -, -, hbehind⟩ := List.filter_eq_cons_iff.mp hback
    obtain ⟨gap, tail, rfl, hgap, -, -⟩ := List.filter_eq_cons_iff.mp hbehind
    exact ⟨front ++ lead, a, gap, b, tail, by simp, ha, hb, fun c hc => by simpa using hgap c hc⟩

/-- Dropping spaces neither makes nor breaks a run of breaks. -/
theorem hasBreakRun_cleanLine_iff {s : Text} : HasBreakRun (cleanLine s) ↔ HasBreakRun (strip s) := by
  rw [hasBreakRun_iff_unspaced, hasBreakRun_iff_unspaced, unspaced_cleanLine]

/-! ### Breaks as spaces -/

/-- A break as a space, and every other character as it is. -/
def unbroken (c : Char) : Char := if isBreak c then ' ' else c

theorem cleanSingleLine_eq (s : Text) : cleanSingleLine s = (cleanLine s).map unbroken := rfl

theorem unbroken_eq_space_iff {c : Char} : unbroken c = ' ' ↔ c = ' ' ∨ isBreak c = true := by
  unfold unbroken
  split
  · rename_i h
    simp [h]
  · rename_i h
    simp [h]

theorem unbroken_of_ink {c : Char} (h : isSpace c = false) : unbroken c = c := by
  refine if_neg fun hbreak => ?_
  rw [isSpace_of_isBreak hbreak] at h
  cases h

theorem map_unbroken_eq_self {s : Text} (h : ∀ c ∈ s, isBreak c = false) : s.map unbroken = s := by
  refine (List.map_congr_left fun c hc => ?_).trans (List.map_id s)
  exact if_neg (by simp [h c hc])

/-- No break is left in a single line. -/
theorem not_isBreak_of_mem_cleanSingleLine {s : Text} {c : Char} (h : c ∈ cleanSingleLine s) :
    isBreak c = false := by
  rw [cleanSingleLine_eq] at h
  obtain ⟨d, -, rfl⟩ := List.mem_map.mp h
  unfold unbroken
  split
  · rfl
  · rename_i hd
    simpa using hd

/-- A single line begins and ends as the clean line does, which is with ink. -/
theorem head?_cleanSingleLine {s : Text} {c : Char} (h : (cleanSingleLine s).head? = some c) :
    isSpace c = false := by
  rw [cleanSingleLine_eq, List.head?_map] at h
  obtain ⟨d, hd, rfl⟩ := Option.map_eq_some_iff.mp h
  have hink := (isClean_cleanLine s).head d hd
  rwa [unbroken_of_ink hink]

theorem getLast?_cleanSingleLine {s : Text} {c : Char} (h : (cleanSingleLine s).getLast? = some c) :
    isSpace c = false := by
  rw [cleanSingleLine_eq, List.getLast?_map] at h
  obtain ⟨d, hd, rfl⟩ := Option.map_eq_some_iff.mp h
  have hink := (isClean_cleanLine s).last d hd
  rwa [unbroken_of_ink hink]

/-- In a line whose neighbours are apart, two spaces come from two breaks. -/
theorem double_space_map_unbroken_iff {s : Text} (h : s.IsChain Apart) :
    [' ', ' '] <:+: s.map unbroken ↔ HasBreakRun s := by
  rw [List.isChain_iff_forall_rel_of_append_cons_cons] at h
  constructor
  · rintro ⟨x, y, hxy⟩
    rw [List.append_assoc] at hxy
    obtain ⟨front, back, rfl, -, hback⟩ := List.map_eq_append_iff.mp hxy.symm
    obtain ⟨a, behind, rfl, ha, hbehind⟩ := List.map_eq_cons_iff.mp hback
    obtain ⟨b, tail, rfl, hb, -⟩ := List.map_eq_cons_iff.mp hbehind
    -- Each of the two was a space or a break, and a space keeps apart from both.
    obtain ⟨hleft, hright⟩ := h rfl
    have ha' : isBreak a = true := by
      rcases unbroken_eq_space_iff.mp ha with rfl | ha
      · obtain ⟨hspace, hbreak⟩ := hleft rfl
        rcases unbroken_eq_space_iff.mp hb with rfl | hb
        · exact absurd rfl hspace
        · exact absurd hb (by simp [hbreak])
      · exact ha
    have hb' : isBreak b = true := by
      rcases unbroken_eq_space_iff.mp hb with rfl | hb
      · exact absurd ha' (by simp [hright rfl])
      · exact hb
    exact ⟨front, a, [], b, tail, rfl, ha', hb', by simp⟩
  · rintro ⟨x, a, gap, b, y, heq, ha, hb, hgap⟩
    cases gap with
    | nil =>
      refine ⟨x.map unbroken, y.map unbroken, ?_⟩
      rw [heq, List.map_append, List.nil_append, List.map_cons, List.map_cons,
        unbroken_eq_space_iff.mpr (Or.inr ha), unbroken_eq_space_iff.mpr (Or.inr hb), List.append_assoc]
      rfl
    | cons c gap =>
      -- A space behind the first break would be next to it.
      obtain rfl := hgap c List.mem_cons_self
      exact absurd ha (by simp [(h heq).2 rfl])

/-- **Where a single line has two spaces side by side.** -/
theorem double_space_cleanSingleLine_iff {s : Text} :
    [' ', ' '] <:+: cleanSingleLine s ↔ HasBreakRun (strip s) := by
  rw [cleanSingleLine_eq, double_space_map_unbroken_iff (isClean_cleanLine s).apart, hasBreakRun_cleanLine_iff]

/-! ### Cleaning once more -/

/-- Without breaks a single line is a clean line. -/
theorem cleanSingleLine_eq_cleanLine {s : Text} (h : ∀ c ∈ s, isBreak c = false) :
    cleanSingleLine s = cleanLine s :=
  map_unbroken_eq_self fun c hc => h c ((cleanLine_sublist s).subset hc)

/-- Without breaks, neighbours are apart unless both are spaces. -/
theorem isChain_apart_iff {s : Text} (h : ∀ c ∈ s, isBreak c = false) :
    s.IsChain Apart ↔ ¬ [' ', ' '] <:+: s := by
  rw [List.isChain_iff_forall_rel_of_append_cons_cons]
  constructor
  · rintro happart ⟨x, y, rfl⟩
    have hspaces : Apart ' ' ' ' := happart (List.append_assoc x [' ', ' '] y)
    exact (hspaces.1 rfl).1 rfl
  · rintro hnone a b x y rfl
    refine ⟨?_, fun _ => h a (by simp)⟩
    rintro rfl
    refine ⟨?_, h b (by simp)⟩
    rintro rfl
    exact hnone ⟨x, y, by simp⟩

/-- **A single line is stable** unless it has two spaces side by side. -/
theorem cleanSingleLine_idempotent_iff {s : Text} :
    cleanSingleLine (cleanSingleLine s) = cleanSingleLine s ↔ ¬ HasBreakRun (strip s) := by
  have hbreak : ∀ c ∈ cleanSingleLine s, isBreak c = false := fun _ hc => not_isBreak_of_mem_cleanSingleLine hc
  rw [cleanSingleLine_eq_cleanLine hbreak, cleanLine_eq_self_iff, ← double_space_cleanSingleLine_iff,
    ← isChain_apart_iff hbreak]
  exact ⟨IsClean.apart, fun happart => ⟨fun _ => head?_cleanSingleLine, fun _ => getLast?_cleanSingleLine, happart⟩⟩

end DocMark.Text

namespace DocMark.Source

open Text

/-- **A headline is one line.** It has ink at both ends and no break. Two spaces stand side by side in it exactly
when two breaks with at most spaces between them stand in what is shown of the declaration, and such texts are
also the only ones whose single line is not stable. -/
theorem headline_single_line_iff (line : Text) :
    let shown := line.takeWhile fun c => c != '\x7b' && c != ';'
    (∀ c, (headline line).head? = some c → isSpace c = false) ∧
      (∀ c, (headline line).getLast? = some c → isSpace c = false) ∧
      (∀ c ∈ headline line, isBreak c = false) ∧
      ([' ', ' '] <:+: headline line ↔ HasBreakRun (strip shown)) ∧
      ∀ s, cleanSingleLine (cleanSingleLine s) = cleanSingleLine s ↔ ¬ HasBreakRun (strip s) :=
  ⟨fun _ => head?_cleanSingleLine, fun _ => getLast?_cleanSingleLine,
    fun _ => not_isBreak_of_mem_cleanSingleLine, double_space_cleanSingleLine_iff,
    fun _ => cleanSingleLine_idempotent_iff⟩

example : headline "public int\n\n  get() \x7b".toList = "public int  get()".toList := by decide

end DocMark.Source
