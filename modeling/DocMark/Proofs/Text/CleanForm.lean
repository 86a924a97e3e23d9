import DocMark.Proofs.Text.Ink
import Mathlib.Data.List.Chain

/-!
The form of clean lines.

A clean line has ink at both ends, and no space in it stands next to a space or a break (`IsClean`). Cleaning
leads to this form (`isClean_cleanLine`) and leaves a line that has it alone (`cleanLine_eq_self`): it is a
normal form, reached by dropping spaces (`cleanLine_normal_form`). A space more beside a space makes no
difference (`cleanLine_double_space`), so in a line of pieces that are joined by spaces the empty pieces do not
show (`cleanLine_joinWith_filter`).
-/

namespace DocMark.Text

/-- Two characters that may be neighbours in a clean line: beside a space stands neither a space nor a
break. -/
def Apart (a b : Char) : Prop :=
  (a = ' ' → b ≠ ' ' ∧ isBreak b = false) ∧ (b = ' ' → isBreak a = false)

/-- A clean line: ink at both ends, and neighbours apart. -/
structure IsClean (s : Text) : Prop where
  head : ∀ c, s.head? = some c → isSpace c = false
  last : ∀ c, s.getLast? = some c → isSpace c = false
  apart : s.IsChain Apart

theorem isClean_nil : IsClean [] := ⟨by simp, by simp, List.isChain_nil⟩

/-- Ink is no space and no break, so it goes with everything. -/
theorem apart_of_ink_left {a b : Char} (h : isSpace a = false) : Apart a b := by
  refine ⟨?_, fun _ => Bool.eq_false_iff.mpr fun hbreak => ?_⟩
  · rintro rfl
    cases h
  · rw [isSpace_of_isBreak hbreak] at h
    cases h

theorem apart_of_ink_right {a b : Char} (h : isSpace b = false) : Apart a b := by
  have hspace : b ≠ ' ' := by
    rintro rfl
    cases h
  refine ⟨fun _ => ⟨hspace, Bool.eq_false_iff.mpr fun hbreak => ?_⟩, fun heq => absurd heq hspace⟩
  rw [isSpace_of_isBreak hbreak] at h
  cases h

/-! ### Clean lines stay -/

theorem strip_eq_self {s : Text} (hhead : ∀ c, s.head? = some c → isSpace c = false)
    (hlast : ∀ c, s.getLast? = some c → isSpace c = false) : strip s = s := by
  have hdrop : s.dropWhile isSpace = s := by
    cases s with
    | nil => rfl
    | cons c r => rw [List.dropWhile_cons_of_neg (by simp [hhead c rfl])]
  rw [strip, hdrop, stripEnd, trimEnd_eq_self hlast]

/-- No space is next to a break, so none is dropped; after a break no space may follow. -/
theorem tightenFrom_eq_self {s : Text} (h : s.IsChain Apart) {after : Bool}
    (hafter : after = true → s.head? ≠ some ' ') : tightenFrom after s = s := by
  induction s generalizing after with
  | nil => rfl
  | cons c r ih =>
    obtain ⟨hnext, hr⟩ := List.isChain_cons.mp h
    rw [tightenFrom]
    split
    · rename_i hc
      subst hc
      have hout : after = false := Bool.eq_false_iff.mpr fun htrue => hafter htrue rfl
      have hbreak : breakAhead r = false := by
        cases r with
        | nil => rfl
        | cons d r =>
          obtain ⟨hspace, hbreak⟩ := (hnext d rfl).1 rfl
          rw [breakAhead, List.dropWhile_cons_of_neg (by simpa using hspace)]
          exact hbreak
      rw [hout, hbreak, Bool.or_false, if_neg (by simp), ih hr (by simp)]
    · rw [ih hr]
      intro hbreak hhead
      exact absurd hbreak (by simp [(hnext ' ' hhead).2 rfl])

/-- Squeezing leaves a text alone whose neighbours are apart. -/
theorem squeeze_eq_self {s : Text} (h : s.IsChain Apart) : squeeze s = s := by
  induction s with
  | nil => rfl
  | cons c r ih =>
    obtain ⟨hnext, hr⟩ := List.isChain_cons.mp h
    have hkeep : ¬ (c = ' ' ∧ r.head? = some ' ') := by
      rintro ⟨hc, hhead⟩
      exact ((hnext ' ' hhead).1 hc).1 rfl
    rw [squeeze, if_neg hkeep, ih hr]

/-- **A clean line stays as it is.** -/
theorem cleanLine_eq_self {s : Text} (h : IsClean s) : cleanLine s = s := by
  rw [cleanLine, strip_eq_self h.head h.last, tighten, tightenFrom_eq_self h.apart (by simp),
    squeeze_eq_self h.apart]

/-! ### Cleaning makes clean -/

/-- Two characters that may be neighbours once spaces next to breaks are dropped. -/
def Tight (a b : Char) : Prop := (a = ' ' → isBreak b = false) ∧ (b = ' ' → isBreak a = false)

/-- Where no break is ahead, none comes next. -/
theorem head?_tightenFrom_of_breakAhead {s : Text} (h : breakAhead s = false) {c : Char}
    (hc : (tightenFrom false s).head? = some c) : isBreak c = false := by
  cases s with
  | nil => cases hc
  | cons d r =>
    rw [tightenFrom] at hc
    by_cases hd : d = ' '
    · subst hd
      have hr : breakAhead r = false := h
      rw [if_pos rfl, hr, Bool.or_false, if_neg (by simp)] at hc
      obtain rfl : ' ' = c := Option.some.inj hc
      rfl
    · rw [if_neg hd] at hc
      obtain rfl : d = c := Option.some.inj hc
      rwa [breakAhead, List.dropWhile_cons_of_neg (by simpa using hd)] at h

theorem head?_tightenFrom_after (s : Text) : (tightenFrom true s).head? ≠ some ' ' := by
  induction s with
  | nil => simp [tightenFrom]
  | cons c r ih =>
    rw [tightenFrom]
    split
    · exact ih
    · rename_i hc
      simpa using hc

/-- Dropping spaces next to breaks leaves neighbours tight. -/
theorem isChain_tightenFrom (after : Bool) (s : Text) : (tightenFrom after s).IsChain Tight := by
  induction s generalizing after with
  | nil => exact List.isChain_nil
  | cons c r ih =>
    rw [tightenFrom]
    split
    · rename_i hc
      subst hc
      split
      · exact ih after
      · rename_i hkeep
        have hbreak : breakAhead r = false :=
          Bool.eq_false_iff.mpr fun hahead => hkeep (by rw [hahead, Bool.or_true])
        refine List.isChain_cons.mpr ⟨fun d hd => ⟨fun _ => ?_, fun _ => rfl⟩, ih false⟩
        exact head?_tightenFrom_of_breakAhead hbreak hd
    · rename_i hc
      refine List.isChain_cons.mpr ⟨fun d hd => ⟨fun hspace => absurd hspace hc, ?_⟩, ih _⟩
      rintro rfl
      refine Bool.eq_false_iff.mpr fun hbreak => ?_
      rw [hbreak] at hd
      exact head?_tightenFrom_after r hd

@[simp] theorem head?_squeeze (s : Text) : (squeeze s).head? = s.head? := by
  induction s with
  | nil => rfl
  | cons c r ih =>
    rw [squeeze]
    split
    · rename_i h
      rw [ih, h.2, h.1]
      rfl
    · rfl

/-- Squeezing leaves tight neighbours apart. -/
theorem isChain_squeeze {s : Text} (h : s.IsChain Tight) : (squeeze s).IsChain Apart := by
  induction s with
  | nil => exact List.isChain_nil
  | cons c r ih =>
    obtain ⟨hnext, hr⟩ := List.isChain_cons.mp h
    rw [squeeze]
    split
    · exact ih hr
    · rename_i hkeep
      refine List.isChain_cons.mpr ⟨fun d hd => ?_, ih hr⟩
      rw [head?_squeeze] at hd
      obtain ⟨hleft, hright⟩ := hnext d hd
      refine ⟨fun hc => ⟨?_, hleft hc⟩, hright⟩
      rintro rfl
      exact hkeep ⟨hc, hd⟩

theorem head?_strip {s : Text} {c : Char} (h : (strip s).head? = some c) : isSpace c = false := by
  obtain ⟨t, ht⟩ : strip s <+: s.dropWhile isSpace := List.rdropWhile_prefix isSpace _
  have hhead := List.head?_dropWhile_not isSpace s
  rw [← ht, List.head?_append, h, Option.some_or] at hhead
  simpa using hhead

/-- **Cleaning gives a clean line.** -/
theorem isClean_cleanLine (s : Text) : IsClean (cleanLine s) := by
  refine ⟨fun c hc => ?_, fun c hc => ?_, isChain_squeeze (isChain_tightenFrom false _)⟩
  · cases hstrip : strip s with
    | nil =>
      rw [cleanLine, hstrip] at hc
      cases hc
    | cons d r =>
      have hd : isSpace d = false := head?_strip (by rw [hstrip]; rfl)
      have hne : d ≠ ' ' := by
        rintro rfl
        cases hd
      rw [cleanLine, hstrip, head?_squeeze, tighten, tightenFrom, if_neg hne] at hc
      exact Option.some.inj hc ▸ hd
  · have hink : ink s ≠ [] := by
      intro hnone
      rw [cleanLine_eq_nil_iff.mpr hnone] at hc
      cases hc
    obtain ⟨d, hd, hspace⟩ := endsInInk_cleanLine hink
    exact Option.some.inj (hd.symm.trans hc) ▸ hspace

/-! ### The normal form -/

def unspaced (s : Text) : Text := s.filter (· != ' ')

theorem unspaced_cleanLine (s : Text) : unspaced (cleanLine s) = unspaced (strip s) := by
  rw [cleanLine, unspaced, filter_squeeze rfl, tighten, filter_tightenFrom rfl, unspaced]

/-- The clean lines are those that cleaning leaves alone. -/
theorem cleanLine_eq_self_iff {s : Text} : cleanLine s = s ↔ IsClean s :=
  ⟨fun h => h ▸ isClean_cleanLine s, cleanLine_eq_self⟩

/-- **Cleaning computes a normal form.** What it gives is clean, and it gives back exactly the clean lines, so
doing it twice is doing it once. Apart from white space at the ends it takes nothing away but spaces, and it
joins no words. -/
theorem cleanLine_normal_form (s : Text) :
    IsClean (cleanLine s) ∧ unspaced (cleanLine s) = unspaced (strip s) ∧ words (cleanLine s) = words s ∧
      (cleanLine s = s ↔ IsClean s) ∧ cleanLine (cleanLine s) = cleanLine s :=
  ⟨isClean_cleanLine s, unspaced_cleanLine s, words_cleanLine s, cleanLine_eq_self_iff,
    cleanLine_eq_self (isClean_cleanLine s)⟩

/-! ### Spaces that do not show -/

theorem strip_spaces_append {sp : Text} (h : ∀ c ∈ sp, isSpace c = true) (s : Text) :
    strip (sp ++ s) = strip s := by
  rw [strip, List.dropWhile_append_of_pos h, strip]

theorem strip_append_spaces (s : Text) {sp : Text} (h : ∀ c ∈ sp, isSpace c = true) :
    strip (s ++ sp) = strip s := by
  by_cases hs : ∀ c ∈ s, isSpace c = true
  · have hnone : ink (s ++ sp) = [] := by rw [ink_append, ink_eq_nil hs, ink_eq_nil h, List.append_nil]
    rw [strip_eq_nil_iff.mpr hnone, strip_eq_nil_iff.mpr (ink_eq_nil hs)]
  · have hdrop : (s ++ sp).dropWhile isSpace = s.dropWhile isSpace ++ sp := by
      rw [List.dropWhile_append, if_neg]
      rw [List.isEmpty_iff, List.dropWhile_eq_nil_iff]
      exact hs
    rw [strip, hdrop, stripEnd, trimEnd_append_of_all _ h, strip, stripEnd]

/-- Between ink on both sides, white space stays. -/
theorem strip_append_of_ink {x y : Text} (hx : ink x ≠ []) (hy : ink y ≠ []) :
    strip (x ++ y) = x.dropWhile isSpace ++ stripEnd y := by
  have hdrop : (x ++ y).dropWhile isSpace = x.dropWhile isSpace ++ y := by
    rw [List.dropWhile_append, if_neg]
    rw [List.isEmpty_iff, List.dropWhile_eq_nil_iff]
    exact fun hall => hx (ink_eq_nil hall)
  obtain ⟨c, hc⟩ := List.exists_mem_of_ne_nil _ hy
  obtain ⟨hmem, hink⟩ := List.mem_filter.mp hc
  rw [strip, hdrop, stripEnd, trimEnd_append_of_exists _ ⟨c, hmem, by simpa using hink⟩, stripEnd]

theorem breakAhead_append_double_space (x y : Text) :
    breakAhead (x ++ ' ' :: ' ' :: y) = breakAhead (x ++ ' ' :: y) := by
  induction x with
  | nil => rfl
  | cons c x ih =>
    by_cases hc : c = ' '
    · subst hc
      exact ih
    · have hstop : ∀ z, breakAhead (c :: z) = isBreak c := by
        intro z
        rw [breakAhead, List.dropWhile_cons_of_neg (by simpa using hc)]
      rw [List.cons_append, List.cons_append, hstop, hstop]

theorem squeeze_cons_congr (c : Char) {s t : Text} (hhead : s.head? = t.head?) (h : squeeze s = squeeze t) :
    squeeze (c :: s) = squeeze (c :: t) := by
  rw [squeeze, squeeze, hhead, h]

/-- A second space is dropped with the first, or both become one. -/
theorem squeeze_tightenFrom_double_space (x y : Text) (after : Bool) :
    (tightenFrom after (x ++ ' ' :: ' ' :: y)).head? = (tightenFrom after (x ++ ' ' :: y)).head? ∧
      squeeze (tightenFrom after (x ++ ' ' :: ' ' :: y)) = squeeze (tightenFrom after (x ++ ' ' :: y)) := by
  induction x generalizing after with
  | nil =>
    rw [List.nil_append, List.nil_append, tightenFrom, if_pos rfl]
    split
    · exact ⟨rfl, rfl⟩
    · rename_i hkeep
      obtain ⟨rfl, hahead⟩ : after = false ∧ breakAhead (' ' :: y) = false := by simpa using hkeep
      have hbreak : breakAhead y = false := hahead
      have hone : tightenFrom false (' ' :: y) = ' ' :: tightenFrom false y := by
        rw [tightenFrom, if_pos rfl, hbreak, Bool.or_false, if_neg (by simp)]
      rw [hone]
      refine ⟨rfl, ?_⟩
      rw [squeeze, if_pos ⟨rfl, rfl⟩]
  | cons c x ih =>
    rw [List.cons_append, List.cons_append, tightenFrom, tightenFrom, breakAhead_append_double_space]
    split
    · split
      · exact ih after
      · exact ⟨rfl, squeeze_cons_congr ' ' (ih false).1 (ih false).2⟩
    · exact ⟨rfl, squeeze_cons_congr c (ih _).1 (ih _).2⟩

/-- **A space beside a space makes no difference.** -/
theorem cleanLine_double_space (x y : Text) :
    cleanLine (x ++ ' ' :: ' ' :: y) = cleanLine (x ++ ' ' :: y) := by
  have hone : ∀ z : Text, (∀ c ∈ z, isSpace c = true) → ∀ c ∈ ' ' :: z, isSpace c = true := by
    intro z hz c hc
    rcases List.mem_cons.mp hc with rfl | hc
    · rfl
    · exact hz c hc
  by_cases hy : ink y = []
  · have hspaces := hone y (ink_eq_nil_iff.mp hy)
    rw [cleanLine, cleanLine, strip_append_spaces x (hone _ hspaces), strip_append_spaces x hspaces]
  · by_cases hx : ink x = []
    · have hspaces := ink_eq_nil_iff.mp hx
      have hfirst : strip (' ' :: ' ' :: y) = strip (' ' :: y) := strip_spaces_append (hone [] (by simp)) _
      rw [cleanLine, cleanLine, strip_spaces_append hspaces, strip_spaces_append hspaces, hfirst]
    · have hend : ∀ z, ink z ≠ [] → stripEnd (' ' :: z) = ' ' :: stripEnd z := by
        intro z hz
        obtain ⟨c, hc⟩ := List.exists_mem_of_ne_nil _ hz
        obtain ⟨hmem, hink⟩ := List.mem_filter.mp hc
        exact trimEnd_append_of_exists [' '] ⟨c, hmem, by simpa using hink⟩
      have hmore : ∀ z, ink (' ' :: z) = ink z := ink_cons_space rfl
      rw [cleanLine, cleanLine, strip_append_of_ink hx (by rwa [hmore, hmore]),
        strip_append_of_ink hx (by rwa [hmore]), hend _ (by rwa [hmore]), hend _ hy]
      exact (squeeze_tightenFrom_double_space _ _ false).2

/-! ### Pieces joined by spaces -/

/-- Joined pieces are the first one, and the others with a space before each. -/
theorem joinWith_space_cons (p : Text) (ps : List Text) :
    joinWith [' '] (p :: ps) = p ++ ps.flatMap (' ' :: ·) := by
  induction ps generalizing p with
  | nil => simp [joinWith]
  | cons q qs ih => rw [joinWith, ih, List.flatMap_cons, List.append_assoc]; rfl

/-- Pieces that are empty leave no trace in a clean line. -/
theorem cleanLine_append_flatMap_space (x : Text) (ps : List Text) :
    cleanLine (x ++ ps.flatMap (' ' :: ·)) = cleanLine (x ++ (ps.filter (· ≠ [])).flatMap (' ' :: ·)) := by
  induction ps generalizing x with
  | nil => rfl
  | cons p ps ih =>
    by_cases hp : p = []
    · subst hp
      have hempty : cleanLine (x ++ ' ' :: ps.flatMap (' ' :: ·)) = cleanLine (x ++ ps.flatMap (' ' :: ·)) := by
        cases ps with
        | nil =>
          have hone : ∀ c ∈ [' '], isSpace c = true := List.all_eq_true.mp rfl
          rw [List.flatMap_nil, cleanLine, strip_append_spaces x hone, List.append_nil, cleanLine]
        | cons q qs => exact cleanLine_double_space x _
      rw [List.flatMap_cons, List.cons_append, List.nil_append, hempty, ih, List.filter_cons_of_neg (by simp)]
    · rw [List.filter_cons_of_pos (by simpa using hp), List.flatMap_cons, List.flatMap_cons,
        ← List.append_assoc, ih, ← List.append_assoc]

/-- **Empty pieces do not show.** -/
theorem cleanLine_joinWith_filter (ps : List Text) :
    cleanLine (joinWith [' '] ps) = cleanLine (joinWith [' '] (ps.filter (· ≠ []))) := by
  have hspaced : ∀ qs : List Text, cleanLine (joinWith [' '] qs) = cleanLine (qs.flatMap (' ' :: ·)) := by
    intro qs
    cases qs with
    | nil => rfl
    | cons q qs =>
      have hone : ∀ c ∈ [' '], isSpace c = true := List.all_eq_true.mp rfl
      have hfirst : ∀ z, strip (' ' :: z) = strip z := strip_spaces_append hone
      rw [List.flatMap_cons, List.cons_append, ← joinWith_space_cons, cleanLine, cleanLine, hfirst]
  rw [hspaced, hspaced]
  exact cleanLine_append_flatMap_space [] ps

theorem IsClean.endsInInk {s : Text} (h : IsClean s) (hne : s ≠ []) : EndsInInk s :=
  ⟨s.getLast hne, List.getLast?_eq_some_getLast hne, h.last _ (List.getLast?_eq_some_getLast hne)⟩

/-- Clean lines with a space in between make a clean line. -/
theorem IsClean.append_space {p q : Text} (hp : IsClean p) (hq : IsClean q) (hpne : p ≠ []) (hqne : q ≠ []) :
    IsClean (p ++ ' ' :: q) := by
  refine ⟨fun c hc => hp.head c ?_, fun c hc => hq.last c ?_, ?_⟩
  · rwa [List.head?_append_of_ne_nil _ hpne] at hc
  · rwa [List.getLast?_append_of_ne_nil _ (by simp), List.getLast?_cons_of_ne_nil hqne] at hc
  · refine List.isChain_append.mpr ⟨hp.apart, List.isChain_cons.mpr ⟨fun d hd => ?_, hq.apart⟩, ?_⟩
    · exact apart_of_ink_right (hq.head d hd)
    · exact fun c hc d _ => apart_of_ink_left (hp.last c hc)

/-- Clean pieces with a space between them are a clean line. -/
theorem isClean_joinWith {ps : List Text} (h : ∀ p ∈ ps, IsClean p ∧ p ≠ []) :
    IsClean (joinWith [' '] ps) := by
  induction ps with
  | nil => exact isClean_nil
  | cons p ps ih =>
    obtain ⟨hp, hpne⟩ := h p List.mem_cons_self
    cases ps with
    | nil => exact hp
    | cons q qs =>
      have hjoin : joinWith [' '] (q :: qs) ≠ [] := joinWith_ne_nil (h q (by simp)).2
      rw [joinWith_cons _ _ (List.cons_ne_nil q qs), List.append_assoc, List.singleton_append]
      exact hp.append_space (ih fun r hr => h r (List.mem_cons_of_mem p hr)) hpne hjoin

theorem isClean_joinWith_filter {ps : List Text} (h : ∀ p ∈ ps, IsClean p) :
    IsClean (joinWith [' '] (ps.filter (· ≠ []))) := by
  refine isClean_joinWith fun p hp => ?_
  obtain ⟨hmem, hne⟩ := List.mem_filter.mp hp
  exact ⟨h p hmem, by simpa using hne⟩

/-- **Cleaning joined clean lines** leaves out the empty ones and nothing else. -/
theorem cleanLine_joinWith {ps : List Text} (h : ∀ p ∈ ps, IsClean p) :
    cleanLine (joinWith [' '] ps) = joinWith [' '] (ps.filter (· ≠ [])) := by
  rw [cleanLine_joinWith_filter, cleanLine_eq_self (isClean_joinWith_filter h)]

end DocMark.Text
