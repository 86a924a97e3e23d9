import DocMark.Comment.Line
import DocMark.Proofs.Text.Ink

/-!
Which lines are fences and list items.

Both kinds are told by how a line begins: blanks and three back-quotes, or blanks, a list marker, blanks and
ink (`isFence_iff`, `isListItem_iff`). So a line is of its kind with anything behind it, blanks in front do not
matter, and no line is of both kinds.
-/

namespace DocMark.Comment

open Text

theorem dropWhile_blanks_append {lead : Text} (h : ∀ c ∈ lead, isBlank c = true) {c : Char}
    (hc : isBlank c = false) (r : Text) : (lead ++ c :: r).dropWhile isBlank = c :: r := by
  rw [List.dropWhile_append_of_pos h, List.dropWhile_cons_of_neg (by simp [hc])]

/-- Every text is blanks and a remainder without blanks in front. -/
theorem exists_blanks_append (s : Text) : ∃ lead, (∀ c ∈ lead, isBlank c = true) ∧
    s = lead ++ s.dropWhile isBlank :=
  ⟨s.takeWhile isBlank, fun _ hc => List.mem_takeWhile_imp hc, List.takeWhile_append_dropWhile.symm⟩

/-! ### Fences -/

/-- A fence is blanks and three back-quotes, with anything behind them. -/
theorem isFence_iff {line : Text} :
    isFence line = true ↔
      ∃ lead r, (∀ c ∈ lead, isBlank c = true) ∧ line = lead ++ ("```".toList ++ r) := by
  constructor
  · intro h
    obtain ⟨lead, hlead, hline⟩ := exists_blanks_append line
    obtain ⟨r, hr⟩ : "```".toList <+: line.dropWhile isBlank := List.isPrefixOf_iff_prefix.mp h
    exact ⟨lead, r, hlead, hr ▸ hline⟩
  · rintro ⟨lead, r, hlead, rfl⟩
    rw [isFence, show "```".toList ++ r = '`' :: ('`' :: '`' :: r) from rfl, dropWhile_blanks_append hlead rfl]
    rfl

/-- A fence is a fence with anything behind it. -/
theorem isFence_append {line : Text} (h : isFence line = true) (x : Text) : isFence (line ++ x) = true := by
  obtain ⟨lead, r, hlead, rfl⟩ := isFence_iff.mp h
  exact isFence_iff.mpr ⟨lead, r ++ x, hlead, by simp only [List.append_assoc]⟩

theorem isFence_cons_blank {b : Char} (hb : isBlank b = true) (line : Text) :
    isFence (b :: line) = isFence line := by
  rw [isFence, List.dropWhile_cons_of_pos hb, isFence]

/-! ### List items -/

/-- A list marker: a hyphen, a plus sign, a star, or a number with a point. -/
inductive IsListMarker : Text → Prop where
  | hyphen : IsListMarker ['-']
  | plus : IsListMarker ['+']
  | star : IsListMarker ['*']
  | number {d : Char} {ds : Text} : (∀ c ∈ d :: ds, isDigit c = true) → IsListMarker (d :: ds ++ ['.'])

/-- A list marker is found exactly if one stands there. -/
theorem afterListMarker?_eq_some_iff {s r : Text} :
    afterListMarker? s = some r ↔ ∃ mark, IsListMarker mark ∧ s = mark ++ r := by
  constructor
  · intro h
    unfold afterListMarker? at h
    split at h
    · obtain rfl := Option.some.inj h
      exact ⟨_, .hyphen, rfl⟩
    · obtain rfl := Option.some.inj h
      exact ⟨_, .plus, rfl⟩
    · obtain rfl := Option.some.inj h
      exact ⟨_, .star, rfl⟩
    · split at h
      · rename_i d ds _ hdigits hpoint
        obtain rfl := Option.some.inj h
        refine ⟨d :: ds ++ ['.'], .number fun c hc => ?_, ?_⟩
        · exact List.mem_takeWhile_imp (hdigits ▸ hc)
        · rw [List.append_assoc, List.singleton_append, ← hpoint, ← hdigits,
            List.takeWhile_append_dropWhile]
      · cases h
  · rintro ⟨mark, hmark, rfl⟩
    cases hmark with
    | hyphen => rfl
    | plus => rfl
    | star => rfl
    | @number d ds hdigits =>
      have hd : isDigit d = true := hdigits d List.mem_cons_self
      have htake : (d :: ds ++ ['.'] ++ r).takeWhile isDigit = d :: ds := by
        rw [List.append_assoc, List.takeWhile_append_of_pos hdigits, List.singleton_append,
          List.takeWhile_cons_of_neg (by decide), List.append_nil]
      have hdrop : (d :: ds ++ ['.'] ++ r).dropWhile isDigit = '.' :: r := by
        rw [List.append_assoc, List.dropWhile_append_of_pos hdigits, List.singleton_append,
          List.dropWhile_cons_of_neg (by decide)]
      unfold afterListMarker?
      split
      · rename_i heq
        obtain ⟨rfl, -⟩ := List.cons.inj heq
        cases hd
      · rename_i heq
        obtain ⟨rfl, -⟩ := List.cons.inj heq
        cases hd
      · rename_i heq
        obtain ⟨rfl, -⟩ := List.cons.inj heq
        cases hd
      · rw [htake, hdrop]
        rfl

/-- A list marker begins with neither a blank nor a back-quote. -/
theorem IsListMarker.exists_head {mark : Text} (h : IsListMarker mark) :
    ∃ c r, mark = c :: r ∧ isBlank c = false ∧ c ≠ '`' := by
  cases h with
  | hyphen => exact ⟨_, _, rfl, rfl, by simp⟩
  | plus => exact ⟨_, _, rfl, rfl, by simp⟩
  | star => exact ⟨_, _, rfl, rfl, by simp⟩
  | @number d ds hdigits =>
    have hd : isDigit d = true := hdigits d List.mem_cons_self
    refine ⟨d, ds ++ ['.'], rfl, Bool.eq_false_iff.mpr fun hblank => ?_, ?_⟩
    · simp only [isBlank, Bool.or_eq_true, beq_iff_eq] at hblank
      rcases hblank with rfl | rfl
      · cases hd
      · cases hd
    · rintro rfl
      cases hd

/-- A list item is blanks, a list marker, at least one blank and ink, with anything behind it. -/
theorem isListItem_iff {line : Text} :
    isListItem line = true ↔ ∃ lead mark b gap c r, (∀ c ∈ lead, isBlank c = true) ∧ IsListMarker mark ∧
      (∀ c ∈ b :: gap, isBlank c = true) ∧ isSpace c = false ∧
        line = lead ++ (mark ++ b :: (gap ++ c :: r)) := by
  constructor
  · intro h
    obtain ⟨lead, hlead, hline⟩ := exists_blanks_append line
    unfold isListItem at h
    split at h
    · rename_i b q hmarker
      obtain ⟨mark, hmark, heq⟩ := afterListMarker?_eq_some_iff.mp hmarker
      obtain ⟨gap, hgap, hq⟩ := exists_blanks_append q
      rw [Bool.and_eq_true] at h
      obtain ⟨hb, h⟩ := h
      split at h
      · rename_i c r hrest
        refine ⟨lead, mark, b, gap, c, r, hlead, hmark, ?_, by simpa using h, ?_⟩
        · intro d hd
          rcases List.mem_cons.mp hd with rfl | hd
          · exact hb
          · exact hgap d hd
        · rw [← hrest, ← hq, ← heq, ← hline]
      · cases h
    · cases h
  · rintro ⟨lead, mark, b, gap, c, r, hlead, hmark, hgap, hc, rfl⟩
    obtain ⟨d, ds, hhead, hd, -⟩ := hmark.exists_head
    have hafter : afterListMarker? (mark ++ b :: (gap ++ c :: r)) = some (b :: (gap ++ c :: r)) :=
      afterListMarker?_eq_some_iff.mpr ⟨mark, hmark, rfl⟩
    have hblank : isBlank c = false :=
      Bool.eq_false_iff.mpr fun htrue => by simp [isSpace_of_isBlank htrue] at hc
    have hdrop : (lead ++ (mark ++ b :: (gap ++ c :: r))).dropWhile isBlank =
        mark ++ b :: (gap ++ c :: r) := by
      rw [hhead, List.cons_append]
      exact dropWhile_blanks_append hlead hd _
    rw [isListItem, hdrop, hafter]
    simp only
    rw [dropWhile_blanks_append (fun e he => hgap e (List.mem_cons_of_mem b he)) hblank]
    simp [hgap b List.mem_cons_self, hc]

/-- A list item is a list item with anything behind it. -/
theorem isListItem_append {line : Text} (h : isListItem line = true) (x : Text) :
    isListItem (line ++ x) = true := by
  obtain ⟨lead, mark, b, gap, c, r, hlead, hmark, hgap, hc, rfl⟩ := isListItem_iff.mp h
  exact isListItem_iff.mpr ⟨lead, mark, b, gap, c, r ++ x, hlead, hmark, hgap, hc, by simp⟩

theorem isListItem_cons_blank {b : Char} (hb : isBlank b = true) (line : Text) :
    isListItem (b :: line) = isListItem line := by
  rw [isListItem, List.dropWhile_cons_of_pos hb, isListItem]

/-- A list item is no fence. -/
theorem isFence_of_isListItem {line : Text} (h : isListItem line = true) : isFence line = false := by
  obtain ⟨lead, mark, b, gap, c, r, hlead, hmark, -, -, rfl⟩ := isListItem_iff.mp h
  obtain ⟨d, ds, rfl, hblank, hquote⟩ := hmark.exists_head
  rw [isFence, List.cons_append, dropWhile_blanks_append hlead hblank]
  refine Bool.eq_false_iff.mpr fun hticks => hquote ?_
  obtain ⟨q, hq⟩ : "```".toList <+: d :: (ds ++ b :: (gap ++ c :: r)) := List.isPrefixOf_iff_prefix.mp hticks
  exact (List.cons.inj hq).1.symm

end DocMark.Comment
