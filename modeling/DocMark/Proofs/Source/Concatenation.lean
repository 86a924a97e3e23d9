import DocMark.Proofs.Source.Extraction

/-!
Sections of concatenated source texts.

A text is *closed* when it ends in an opening brace or a semicolon and nothing behind its last match opens
a comment. No continuation changes the matches of a closed text: its last character belongs to no opening,
no end mark and no declaration run (`IsComment.append_right`, `closesAt_append_iff`), and an opening in
front of a match always matches itself. So the successive comments of the whole are those of the two parts
(`Leftmost.append`), and the sections are concatenated as well (`sections_append_of_closed`).
-/

namespace DocMark.Source

/-! ### Line endings -/

/-- Line endings are normalized on both sides apart, unless a carriage return stands at the seam. -/
theorem normalizeNewlines_append {a : Text} (h : a.getLast? ≠ some '\r') (b : Text) :
    Text.normalizeNewlines (a ++ b) = Text.normalizeNewlines a ++ Text.normalizeNewlines b := by
  induction a with
  | nil => rfl
  | cons c r ih =>
    cases r with
    | nil =>
      have hc : c ≠ '\r' := by simpa using h
      simp [Text.normalizeNewlines, hc]
    | cons d r =>
      have ih := ih (by simpa [List.getLast?_cons_cons] using h)
      -- Whether the carriage return `c` is dropped depends on `d` only, which stands before the seam.
      rw [List.cons_append, Text.normalizeNewlines, ih, Text.normalizeNewlines.eq_def (c :: d :: r)]
      by_cases hc : c = '\r' <;> by_cases hd : d = '\n' <;> simp [hc, hd]

theorem getLast?_normalizeNewlines {a : Text} {c : Char} (h : a.getLast? = some c) (hc : c ≠ '\r') :
    (Text.normalizeNewlines a).getLast? = some c := by
  obtain ⟨front, rfl⟩ := List.getLast?_eq_some_iff.mp h
  clear h
  induction front with
  | nil => simp [Text.normalizeNewlines, hc]
  | cons d r ih =>
    rw [List.cons_append, Text.normalizeNewlines]
    split
    · split
      · exact ih
      · rw [List.getLast?_cons, ih]
        rfl
    · rw [List.getLast?_cons, ih]
      rfl

/-! ### Comments of a concatenation -/

/-- The last character of the text is an opening brace or a semicolon. -/
def EndsCode (t : Text) : Prop := t.getLast? = some '\x7b' ∨ t.getLast? = some ';'

instance (t : Text) : Decidable (EndsCode t) := inferInstanceAs (Decidable (_ ∨ _))

def Span.shift (n : Nat) (s : Span) : Span := ⟨n + s.start, n + s.close, n + s.stop⟩

namespace EndsCode

variable {a b : Text}

/-- The last character is no star, no slash and no character of a declaration run. -/
theorem getElem?_last (h : EndsCode a) {i : Nat} (hi : i + 1 = a.length) {c : Char}
    (hc : a[i]? = some c) : c ≠ '*' ∧ c ≠ '/' ∧ isRunChar c = false := by
  have hlast : a.getLast? = some c := by
    rw [List.getLast?_eq_getElem?, ← hi]
    exact hc
  rcases h with h | h
  · obtain rfl : '\x7b' = c := Option.some.inj (h.symm.trans hlast)
    decide
  · obtain rfl : ';' = c := Option.some.inj (h.symm.trans hlast)
    decide

/-- A word that starts in the text, ends there if its first two characters are stars or slashes. -/
theorem two_lt_length (h : EndsCode a) {i : Nat} (hi : i < a.length) {c d : Char}
    (hc : c = '*' ∨ c = '/') (hd : d = '*' ∨ d = '/') (h0 : (a ++ b)[i]? = some c)
    (h1 : (a ++ b)[i + 1]? = some d) : i + 2 < a.length := by
  rw [List.getElem?_append_left hi] at h0
  have hnext : i + 1 < a.length := by
    by_contra hge
    obtain ⟨hstar, hslash, -⟩ := h.getElem?_last (by omega) h0
    exact hc.elim hstar hslash
  rw [List.getElem?_append_left hnext] at h1
  by_contra hge
  obtain ⟨hstar, hslash, -⟩ := h.getElem?_last (by omega) h1
  exact hd.elim hstar hslash

end EndsCode

section Append

variable {a b : Text} {s : Span}

/-- No opening of a comment stands across the end of code. -/
theorem opens_append_iff (h : EndsCode a) {i : Nat} (hi : i < a.length) :
    "/**".toList <+: (a ++ b).drop i ↔ "/**".toList <+: a.drop i := by
  rw [List.drop_append_of_le_length (Nat.le_of_lt hi)]
  constructor
  · intro hopen
    have hget : ∀ k < 3, (a ++ b)[i + k]? = "/**".toList[k]? := by
      intro k hk
      obtain ⟨rest, hrest⟩ := hopen
      rw [← List.getElem?_drop, List.drop_append_of_le_length (Nat.le_of_lt hi), ← hrest,
        List.getElem?_append_left hk]
    have hlt := h.two_lt_length (b := b) hi (.inr rfl) (.inl rfl) (hget 0 (by omega)) (hget 1 (by omega))
    exact List.prefix_of_prefix_length_le hopen (List.prefix_append _ b)
      (by rw [List.length_drop]; change 3 ≤ _; omega)
  · exact fun hopen => hopen.trans (List.prefix_append _ b)

/-- A comment can close at a place inside the first part exactly when it can in that part alone. -/
theorem closesAt_append_iff (h : EndsCode a) {j : Nat} (hj : j < a.length) :
    ClosesAt (a ++ b) j ↔ ClosesAt a j := by
  unfold ClosesAt
  rw [standsClose_iff, standsClose_iff]
  constructor
  · rintro ⟨⟨h0, h1⟩, hrun⟩
    have hlt := h.two_lt_length (b := b) hj (.inl rfl) (.inr rfl) h0 h1
    rw [List.getElem?_append_left (by omega)] at h0 h1 hrun
    exact ⟨⟨h0, h1⟩, hrun⟩
  · rintro ⟨⟨h0, h1⟩, c, hc, hrun⟩
    have hlt := (List.getElem?_eq_some_iff.mp hc).1
    rw [List.getElem?_append_left (by omega), List.getElem?_append_left (by omega),
      List.getElem?_append_left (by omega)]
    exact ⟨⟨h0, h1⟩, c, hc, hrun⟩

theorem closesAt_append_add {j : Nat} : ClosesAt (a ++ b) (a.length + j) ↔ ClosesAt b j := by
  rw [← closesAt_drop, List.drop_left]

/-- A comment stays a comment, whatever follows the text. -/
theorem IsComment.append_right (h : EndsCode a) (hs : IsComment a s) (b : Text) :
    IsComment (a ++ b) s := by
  have hopen := hs.open_le_close
  have hclose := hs.close_add_two_lt
  -- The declaration run stops before the last character, which is not one of the run.
  have hstop : s.stop < a.length := by
    refine Nat.lt_of_le_of_ne hs.stop_le_length fun heq => ?_
    have hrun := hs.close_le_stop
    obtain ⟨c, hc, hrun⟩ := hs.run_chars (a.length - 1) (by omega) (by omega)
    obtain ⟨-, -, hlast⟩ := h.getElem?_last (by omega) hc
    exact absurd hrun (by simp [hlast])
  refine
    { opens := (opens_append_iff h (by omega)).mpr hs.opens
      open_le_close := hopen
      closes := (closesAt_append_iff h (by omega)).mpr hs.closes
      closes_first := ?_
      close_le_stop := hs.close_le_stop
      run_chars := ?_
      run_stops := ?_ }
  · intro j hj hcloses
    by_cases hlt : j < a.length
    · exact hs.closes_first j hj ((closesAt_append_iff h hlt).mp hcloses)
    · omega
  · intro k hk hkstop
    rw [List.getElem?_append_left (by omega)]
    exact hs.run_chars k hk hkstop
  · intro c hc
    rw [List.getElem?_append_left hstop] at hc
    exact hs.run_stops c hc

/-- The comments behind the first part are those of the second part, moved to the right. -/
theorem isComment_shift_iff : IsComment (a ++ b) (s.shift a.length) ↔ IsComment b s := by
  have hget : ∀ k, (a ++ b)[a.length + k]? = b[k]? := by
    intro k
    rw [List.getElem?_append_right (Nat.le_add_right _ _), Nat.add_sub_cancel_left]
  have hdrop : (a ++ b).drop (a.length + s.start) = b.drop s.start := by
    rw [← List.drop_drop, List.drop_left]
  constructor
  · intro hs
    have hopen := hs.open_le_close
    have hstop := hs.close_le_stop
    simp only [Span.shift] at hopen hstop
    exact
      { opens := hdrop ▸ hs.opens
        open_le_close := by omega
        closes := closesAt_append_add.mp hs.closes
        closes_first := fun j hj hcloses => by
          have hfirst := hs.closes_first (a.length + j) (by simp only [Span.shift]; omega)
            (closesAt_append_add.mpr hcloses)
          simp only [Span.shift] at hfirst
          omega
        close_le_stop := by omega
        run_chars := fun k hk hlt => by
          rw [← hget]
          exact hs.run_chars (a.length + k) (by simp only [Span.shift]; omega)
            (by simp only [Span.shift]; omega)
        run_stops := fun c hc => hs.run_stops c ((hget _).trans hc) }
  · intro hs
    have hopen := hs.open_le_close
    have hstop := hs.close_le_stop
    refine
      { opens := hdrop ▸ hs.opens
        open_le_close := by simp only [Span.shift]; omega
        closes := closesAt_append_add.mpr hs.closes
        closes_first := ?_
        close_le_stop := by simp only [Span.shift]; omega
        run_chars := ?_
        run_stops := fun c hc => hs.run_stops c ((hget _).symm.trans hc) }
    · intro j hj hcloses
      simp only [Span.shift] at hj ⊢
      obtain ⟨k, rfl⟩ : ∃ k, j = a.length + k := ⟨j - a.length, by omega⟩
      have hfirst := hs.closes_first k (by omega) (closesAt_append_add.mp hcloses)
      omega
    · intro k hk hlt
      simp only [Span.shift] at hk hlt
      obtain ⟨m, rfl⟩ : ∃ m, k = a.length + m := ⟨k - a.length, by omega⟩
      rw [hget]
      exact hs.run_chars m (by omega) (by omega)

/-- Every comment that starts behind the first part is a comment of the second part. -/
theorem exists_shift_of_le (hs : IsComment (a ++ b) s) (hle : a.length ≤ s.start) :
    ∃ s', IsComment b s' ∧ s = s'.shift a.length := by
  have hopen := hs.open_le_close
  have hstop := hs.close_le_stop
  have heq : s = Span.shift a.length
      ⟨s.start - a.length, s.close - a.length, s.stop - a.length⟩ := by
    simp only [Span.shift, Nat.add_sub_cancel' hle,
      Nat.add_sub_cancel' (show a.length ≤ s.close by omega),
      Nat.add_sub_cancel' (show a.length ≤ s.stop by omega)]
  exact ⟨_, isComment_shift_iff.mp (heq ▸ hs), heq⟩

/-- An opening with a place to close behind it starts a comment. -/
theorem exists_isComment {t : Text} {i j : Nat} (hopen : "/**".toList <+: t.drop i)
    (hij : i + 3 ≤ j) (hclose : ClosesAt t j) : ∃ s, IsComment t s ∧ s.start = i := by
  classical
  have hex : ∃ j, i + 3 ≤ j ∧ ClosesAt t j := ⟨j, hij, hclose⟩
  obtain ⟨hle, hfirst⟩ := Nat.find_spec hex
  have hbounds := (run_bounds_iff (t := t) (Nat.le_add_right (Nat.find hex + 2)
    ((t.drop (Nat.find hex + 2)).takeWhile isRunChar).length)).mpr rfl
  exact ⟨⟨i, Nat.find hex, _⟩,
    { opens := hopen
      open_le_close := hle
      closes := hfirst
      closes_first := fun j hj hcloses => Nat.find_min' hex ⟨hj, hcloses⟩
      close_le_stop := Nat.le_add_right _ _
      run_chars := hbounds.1
      run_stops := hbounds.2 }, rfl⟩

end Append

/-! ### Successive comments of a concatenation -/

/-- Where the last of the successive comments stops; `pos` when there is none. -/
def endOf (pos : Nat) (spans : List Span) : Nat := (spans.getLast?.map Span.stop).getD pos

theorem endOf_cons (pos : Nat) (s : Span) (rest : List Span) :
    endOf pos (s :: rest) = endOf s.stop rest := by
  cases rest with
  | nil => rfl
  | cons r rest =>
    rw [endOf, endOf, List.getLast?_cons_cons]
    cases h : (r :: rest).getLast? with
    | none => simp at h
    | some last => rfl

namespace Leftmost

variable {a b : Text}

/-- The search may start earlier where no comment starts. -/
theorem of_le {t : Text} {pos pos' : Nat} {spans : List Span} (h : Leftmost t pos spans)
    (hle : pos' ≤ pos) (hnone : ∀ s, IsComment t s → pos' ≤ s.start → pos ≤ s.start) :
    Leftmost t pos' spans := by
  cases h with
  | done hdone =>
    refine .done fun s hs => ?_
    by_contra hge
    have hlt := hdone s hs
    have hpos := hnone s hs (by omega)
    omega
  | next hs hpos hleast hrest =>
    exact .next hs (by omega) (fun s' hs' hpos' => hleast s' hs' (hnone s' hs' hpos')) hrest

/-- Comments stay leftmost when a text is put in front. -/
theorem shift {pos : Nat} {spans : List Span} (h : Leftmost b pos spans) (a : Text) :
    Leftmost (a ++ b) (a.length + pos) (spans.map (Span.shift a.length)) := by
  induction h with
  | done hdone =>
    refine .done fun s hs => ?_
    by_contra hge
    obtain ⟨s', hs', rfl⟩ := exists_shift_of_le hs (by omega)
    have hlt := hdone s' hs'
    simp only [Span.shift] at hge
    omega
  | next hs hpos hleast _ ih =>
    refine .next (isComment_shift_iff.mpr hs) (Nat.add_le_add_left hpos _) ?_ ih
    intro s' hs' hpos'
    obtain ⟨s'', hs'', rfl⟩ := exists_shift_of_le hs' (by omega)
    simp only [Span.shift] at hpos' ⊢
    have hle := hleast s'' hs'' (by omega)
    omega

/-- **The successive comments of a concatenation.** When the first part ends in code and opens no comment
behind its last one, they are those of the first part and then those of the second. -/
theorem append {pos : Nat} {spans spans' : List Span} (hcode : EndsCode a)
    (h : Leftmost a pos spans) (hopen : ∀ i, endOf pos spans ≤ i → ¬ "/**".toList <+: a.drop i)
    (h' : Leftmost b 0 spans') (hpos : pos ≤ a.length) :
    Leftmost (a ++ b) pos (spans ++ spans'.map (Span.shift a.length)) := by
  induction h with
  | @done pos hdone =>
    refine of_le (h'.shift a) hpos fun s hs hle => ?_
    by_contra hlt
    exact hopen s.start hle ((opens_append_iff hcode (by omega)).mp hs.opens)
  | @next pos s rest hs hle hleast _ ih =>
    have hclose := hs.close_add_two_lt
    have hopens := hs.open_le_close
    refine .next (hs.append_right hcode b) hle ?_
      (ih (fun i hi => hopen i (by rwa [endOf_cons])) hs.stop_le_length)
    -- An opening in front of `s` closes where `s` does at the latest, so it is a comment of the first part.
    intro s' hs' hpos'
    by_contra hlt
    obtain ⟨s'', hs'', hstart⟩ := exists_isComment ((opens_append_iff hcode (by omega)).mp hs'.opens)
      (by omega) hs.closes
    have hfirst := hleast s'' hs'' (by omega)
    omega

end Leftmost

/-! ### Bodies and runs -/

theorem extract_append_left {a b : Text} {i j : Nat} (hj : j ≤ a.length) :
    (a ++ b).extract i j = a.extract i j := by
  simp only [List.extract_eq_take_drop]
  rw [List.drop_append, List.take_append_of_le_length]
  rw [List.length_drop]
  omega

theorem extract_append_right {a b : Text} {i j : Nat} :
    (a ++ b).extract (a.length + i) (a.length + j) = b.extract i j := by
  simp only [List.extract_eq_take_drop]
  rw [← List.drop_drop, List.drop_left, Nat.add_sub_add_left]

/-- Where the last match of the scanner in the text ends; the start of the text when there is none. -/
def scannedTo (t : Text) : Nat :=
  ((Scanner.ofPattern sectionPattern t).allMatches.getLast?.map Match.stop).getD 0

theorem scannedTo_eq {t : Text} {spans : List Span} (h : Leftmost t 0 spans) :
    scannedTo t = endOf 0 spans := by
  rw [scannedTo, allMatches_sectionPattern h, List.getLast?_map, Option.map_map]
  rfl

/-- Comments and declaration runs of a concatenation, when the first part is closed. -/
theorem commentRuns_append {a : Text} (hcode : EndsCode a)
    (hopen : ¬ "/**".toList <:+:
      (Text.normalizeNewlines a).drop (scannedTo (Text.normalizeNewlines a))) (b : Text) :
    commentRuns (a ++ b) = commentRuns a ++ commentRuns b := by
  have hseam : Text.normalizeNewlines (a ++ b) =
      Text.normalizeNewlines a ++ Text.normalizeNewlines b := by
    apply normalizeNewlines_append
    rcases hcode with h | h <;> simp [h]
  have hends : EndsCode (Text.normalizeNewlines a) :=
    hcode.imp (fun h => getLast?_normalizeNewlines h (by decide))
      fun h => getLast?_normalizeNewlines h (by decide)
  obtain ⟨spans, h⟩ := exists_leftmost (Text.normalizeNewlines a) 0
  obtain ⟨spans', h'⟩ := exists_leftmost (Text.normalizeNewlines b) 0
  have hall : Leftmost (Text.normalizeNewlines (a ++ b)) 0
      (spans ++ spans'.map (Span.shift (Text.normalizeNewlines a).length)) := by
    rw [hseam]
    refine h.append hends ?_ h' (Nat.zero_le _)
    intro i hi hpre
    rw [scannedTo_eq h] at hopen
    refine hopen (hpre.isInfix.trans ?_)
    rw [← Nat.add_sub_cancel' hi, ← List.drop_drop]
    exact (List.drop_suffix _ _).isInfix
  rw [commentRuns_eq_of_leftmost hall, commentRuns_eq_of_leftmost h, commentRuns_eq_of_leftmost h',
    hseam, List.map_append, List.map_map]
  congr 1
  · apply List.map_congr_left
    intro s hs
    have hstop := (h.isComment hs).stop_le_length
    have hclose := (h.isComment hs).close_le_stop
    rw [Span.body, Span.run, extract_append_left (by omega), extract_append_left hstop]
    rfl
  · apply List.map_congr_left
    intro s _
    simp only [Function.comp_apply, Span.body, Span.run, Span.shift, Nat.add_assoc,
      extract_append_right]

/-- **Extraction is compositional over closed sources.** When a source ends in an opening brace or a
semicolon and opens no comment behind the last match of the scanner, the sections of the source with any
other one behind it are the sections of the two. -/
theorem sections_append_of_closed {a : Text} (hcode : EndsCode a)
    (hopen : ¬ "/**".toList <:+:
      (Text.normalizeNewlines a).drop (scannedTo (Text.normalizeNewlines a))) (b : Text) :
    sections (a ++ b) = sections a ++ sections b := by
  rw [sections, commentRuns_append hcode hopen b, List.filterMap_append]
  rfl

/-- The second source begins with an end mark, which no comment of the first one takes. -/
theorem sections_append_of_closed_methods :
    EndsCode "/** A. */ void f() \x7b".toList ∧
      ¬ "/**".toList <:+: (Text.normalizeNewlines "/** A. */ void f() \x7b".toList).drop
        (scannedTo (Text.normalizeNewlines "/** A. */ void f() \x7b".toList)) ∧
      sections ("/** A. */ void f() \x7b".toList ++ " */ x;\r\n/** B. */ int y;".toList) =
        sections "/** A. */ void f() \x7b".toList ++ sections " */ x;\r\n/** B. */ int y;".toList := by
  have hcode : EndsCode "/** A. */ void f() \x7b".toList := by decide
  have hopen : ¬ "/**".toList <:+: (Text.normalizeNewlines "/** A. */ void f() \x7b".toList).drop
      (scannedTo (Text.normalizeNewlines "/** A. */ void f() \x7b".toList)) := by decide
  exact ⟨hcode, hopen, sections_append_of_closed hcode hopen _⟩

end DocMark.Source
