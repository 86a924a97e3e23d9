import DocMark.Proofs.Text.Counting

/-!
The ink of a text: its characters that are not white space, in order.

Layout moves white space only, so what it does to a text is measured by its ink. Trimming and cleaning
keep the ink of a text, joining adds none, and a paragraph marker has none once it is replaced by line
feeds (`ink_replaceParagraphs`). A marker lies on one side of every space, so markers are replaced line
by line in a paragraph whose lines are joined by spaces (`replaceParagraphs_append_space`).
-/

namespace DocMark.Text

/-- The characters of a text that are not white space. -/
def ink (s : Text) : Text := s.filter fun c => !isSpace c

@[simp] theorem ink_nil : ink [] = [] := rfl

@[simp] theorem ink_append (a b : Text) : ink (a ++ b) = ink a ++ ink b := List.filter_append a b

theorem ink_eq_nil_iff {s : Text} : ink s = [] ↔ ∀ c ∈ s, isSpace c = true := by
  rw [ink, List.filter_eq_nil_iff]
  simp

theorem ink_eq_nil {s : Text} (h : ∀ c ∈ s, isSpace c = true) : ink s = [] := ink_eq_nil_iff.mpr h

theorem ink_cons_space {c : Char} (hc : isSpace c = true) (s : Text) : ink (c :: s) = ink s :=
  List.filter_cons_of_neg (by simp [hc])

theorem ink_cons_congr (c : Char) {s t : Text} (h : ink s = ink t) : ink (c :: s) = ink (c :: t) := by
  rw [← List.singleton_append, ink_append, h, ← ink_append, List.singleton_append]

@[simp] theorem ink_newline : ink ['\n'] = [] := rfl

theorem ink_flatten (ls : List Text) : ink ls.flatten = ls.flatMap ink := List.filter_flatten

/-! ### Trimming and cleaning -/

theorem ink_trimEnd {p : Char → Bool} (hp : ∀ c, p c = true → isSpace c = true) (s : Text) :
    ink (trimEnd p s) = ink s := by
  obtain ⟨b, hs, hb⟩ := exists_trimEnd_append p s
  have hnone : ink b = [] := ink_eq_nil fun c hc => hp c (hb c hc)
  conv_rhs => rw [hs, ink_append, hnone, List.append_nil]

@[simp] theorem ink_stripEnd (s : Text) : ink (stripEnd s) = ink s := ink_trimEnd (fun _ h => h) s

@[simp] theorem ink_strip (s : Text) : ink (strip s) = ink s := by
  have hlead : ink (s.takeWhile isSpace) = [] := ink_eq_nil fun _ hc => List.mem_takeWhile_imp hc
  rw [strip, ink_stripEnd]
  conv_rhs => rw [← List.takeWhile_append_dropWhile (p := isSpace) (l := s), ink_append, hlead,
    List.nil_append]

/-- Squeezing drops spaces only. -/
theorem filter_squeeze {p : Char → Bool} (hp : p ' ' = false) (s : Text) :
    (squeeze s).filter p = s.filter p := by
  induction s with
  | nil => rfl
  | cons c r ih =>
    rw [squeeze]
    split
    · rename_i h
      rw [ih, h.1, List.filter_cons_of_neg (by simp [hp])]
    · rw [List.filter_cons, List.filter_cons, ih]

/-- Tightening drops spaces only. -/
theorem filter_tightenFrom {p : Char → Bool} (hp : p ' ' = false) (after : Bool) (s : Text) :
    (tightenFrom after s).filter p = s.filter p := by
  induction s generalizing after with
  | nil => rfl
  | cons c r ih =>
    rw [tightenFrom]
    split
    · rename_i hc
      rw [hc, List.filter_cons_of_neg (by simp [hp])]
      split
      · exact ih after
      · rw [List.filter_cons_of_neg (by simp [hp]), ih]
    · rw [List.filter_cons, List.filter_cons, ih]

/-- Cleaning a line keeps its ink. -/
@[simp] theorem ink_cleanLine (s : Text) : ink (cleanLine s) = ink s := by
  rw [cleanLine, ink, filter_squeeze rfl, tighten, filter_tightenFrom rfl]
  exact ink_strip s

theorem stripEnd_eq_nil_iff {s : Text} : stripEnd s = [] ↔ ink s = [] := by
  rw [stripEnd, trimEnd_eq_nil_iff, ink, List.filter_eq_nil_iff]
  simp

theorem strip_eq_nil_iff {s : Text} : strip s = [] ↔ ink s = [] := by
  rw [strip, stripEnd_eq_nil_iff, ← ink_stripEnd]
  exact iff_of_eq (congrArg (· = []) (ink_strip s))

/-- A line comes to nothing when it has no ink. -/
theorem cleanLine_eq_nil_iff {s : Text} : cleanLine s = [] ↔ ink s = [] := by
  constructor
  · intro h
    rw [← ink_cleanLine, h, ink_nil]
  · intro h
    rw [cleanLine, strip_eq_nil_iff.mpr h]
    rfl

/-! ### Texts that end in ink -/

/-- The last character of a text is no white space. -/
def EndsInInk (s : Text) : Prop := ∃ c, s.getLast? = some c ∧ isSpace c = false

theorem EndsInInk.ne_nil {s : Text} (h : EndsInInk s) : s ≠ [] := by
  rintro rfl
  obtain ⟨c, hc, -⟩ := h
  cases hc

theorem EndsInInk.append {b : Text} (h : EndsInInk b) (a : Text) : EndsInInk (a ++ b) := by
  obtain ⟨c, hc, hink⟩ := h
  exact ⟨c, by rw [List.getLast?_append, hc, Option.some_or], hink⟩

/-- Trimming the end of a text does not reach past ink. -/
theorem EndsInInk.stripEnd_append {s : Text} (h : EndsInInk s) (t : Text) : stripEnd (s ++ t) = s ++ stripEnd t := by
  obtain ⟨c, hc, hink⟩ := h
  obtain ⟨front, rfl⟩ := List.getLast?_eq_some_iff.mp hc
  rw [← List.append_cons, stripEnd, trimEnd_append_cons _ _ hink, List.append_cons, stripEnd]

theorem EndsInInk.stripEnd_append_spaces {s : Text} (h : EndsInInk s) {sp : Text}
    (hsp : ∀ c ∈ sp, isSpace c = true) : stripEnd (s ++ sp) = s := by
  rw [h.stripEnd_append, stripEnd, trimEnd_eq_nil_iff.mpr hsp, List.append_nil]

theorem EndsInInk.stripEnd_eq {s : Text} (h : EndsInInk s) : stripEnd s = s := by
  simpa [stripEnd, trimEnd] using h.stripEnd_append []

theorem ink_ne_nil_of_mem {s : Text} {c : Char} (hc : isSpace c = false) (h : c ∈ s) : ink s ≠ [] :=
  List.ne_nil_of_mem (List.mem_filter.mpr ⟨h, by simp [hc]⟩)

theorem endsInInk_stripEnd {s : Text} (h : ink s ≠ []) : EndsInInk (stripEnd s) := by
  cases hlast : (stripEnd s).getLast? with
  | none => exact absurd (stripEnd_eq_nil_iff.mp (List.getLast?_eq_none_iff.mp hlast)) h
  | some c => exact ⟨c, hlast, not_of_getLast?_trimEnd hlast⟩

theorem endsInInk_strip {s : Text} (h : ink s ≠ []) : EndsInInk (strip s) := by
  apply endsInInk_stripEnd
  intro hnil
  exact h (strip_eq_nil_iff.mp (stripEnd_eq_nil_iff.mpr hnil))

theorem getLast?_squeeze (s : Text) : (squeeze s).getLast? = s.getLast? := by
  induction s with
  | nil => rfl
  | cons c r ih =>
    rw [squeeze]
    split
    · rename_i h
      cases r with
      | nil => simp at h
      | cons d r => rw [ih, List.getLast?_cons_cons]
    · rw [List.getLast?_cons, List.getLast?_cons, ih]

/-- Only spaces are dropped next to breaks, so another last character stays. -/
theorem getLast?_tightenFrom {s : Text} {c : Char} (hc : c ≠ ' ') (h : s.getLast? = some c)
    (after : Bool) : (tightenFrom after s).getLast? = some c := by
  induction s generalizing after with
  | nil => simp at h
  | cons d r ih =>
    cases r with
    | nil =>
      obtain rfl : d = c := by simpa using h
      rw [tightenFrom, if_neg hc]
      rfl
    | cons e r =>
      rw [List.getLast?_cons_cons] at h
      rw [tightenFrom]
      split
      · split
        · exact ih h after
        · rw [List.getLast?_cons, ih h]
          rfl
      · rw [List.getLast?_cons, ih h]
        rfl

/-- A clean line is empty or ends in ink. -/
theorem endsInInk_cleanLine {s : Text} (h : ink s ≠ []) : EndsInInk (cleanLine s) := by
  obtain ⟨c, hc, hink⟩ := endsInInk_strip h
  have hspace : c ≠ ' ' := by
    rintro rfl
    exact absurd hink (by simp [isSpace])
  refine ⟨c, ?_, hink⟩
  rw [cleanLine, getLast?_squeeze, tighten, getLast?_tightenFrom hspace hc]

/-- Replacing leaves ink at the end when every replacement ends in ink, unless all of the text is skipped. -/
theorem endsInInk_replaceFrom {m : Text → Option (Nat × Text)}
    (hm : ∀ s n w, m s = some (n, w) → EndsInInk w) {k : Nat} {s : Text} (hs : EndsInInk s)
    (hk : k < s.length) : EndsInInk (replaceFrom m k s) := by
  -- The tail still ends in ink, or it is empty and the head is the end.
  have htail : ∀ c r, EndsInInk (c :: r) → r ≠ [] → EndsInInk r := by
    rintro c r ⟨d, hd, hink⟩ hne
    exact ⟨d, by rwa [List.getLast?_cons_of_ne_nil hne] at hd, hink⟩
  induction s generalizing k with
  | nil => exact absurd hk (Nat.not_lt_zero k)
  | cons c r ih =>
    cases k with
    | succ k =>
      have hlt : k < r.length := Nat.lt_of_succ_lt_succ hk
      exact ih (htail c r hs (List.ne_nil_of_length_pos (Nat.zero_lt_of_lt hlt))) hlt
    | zero =>
      rw [replaceFrom]
      split
      · rename_i n w hw
        by_cases hlt : n - 1 < r.length
        · have hne : r ≠ [] := List.ne_nil_of_length_pos (Nat.zero_lt_of_lt hlt)
          exact (ih (htail c r hs hne) hlt).append w
        · -- The replacement is all that is left.
          rw [replaceFrom_eq_drop, List.drop_eq_nil_of_le (Nat.le_of_not_lt hlt), replaceFrom,
            List.append_nil]
          exact hm _ n w hw
      · cases r with
        | nil => exact hs
        | cons d q =>
          exact (ih (htail c _ hs (List.cons_ne_nil d q)) (Nat.succ_pos _)).append [c]

/-- Writing code elements as spans keeps ink at the end. -/
theorem endsInInk_codeToMarkdown {s : Text} (hs : EndsInInk s) : EndsInInk (codeToMarkdown s) := by
  refine endsInInk_replaceFrom (fun t n w hw => ?_) hs (List.length_pos_of_ne_nil hs.ne_nil)
  unfold codeElement? at hw
  split at hw
  · obtain ⟨-, rfl⟩ := Prod.mk.inj (Option.some.inj hw)
    exact EndsInInk.append ⟨'`', rfl, rfl⟩ _
  · cases hw

/-! ### Joining -/

/-- Joining with white space adds no ink. -/
theorem ink_joinWith {sep : Text} (hsep : ink sep = []) (ls : List Text) :
    ink (joinWith sep ls) = ls.flatMap ink := by
  induction ls with
  | nil => rfl
  | cons l ls ih =>
    by_cases hnil : ls = []
    · simp [hnil, joinWith]
    · rw [joinWith_cons sep l hnil, ink_append, ink_append, hsep, ih, List.append_nil,
        List.flatMap_cons]

/-! ### Paragraph markers -/

/-- Replacements without ink leave the same ink as none. -/
theorem ink_replaceFrom {m : Text → Option Nat} {w : Text} (hw : ink w = []) (k : Nat) (s : Text) :
    ink (replaceFrom (fun t => (m t).map fun n => (n, w)) k s) =
      ink (replaceFrom (fun t => (m t).map fun n => (n, [])) k s) := by
  induction s generalizing k with
  | nil => simp [replaceFrom]
  | cons c r ih =>
    cases k with
    | succ k => exact ih k
    | zero =>
      cases hm : m (c :: r) with
      | none =>
        simp only [replaceFrom, hm, Option.map_none]
        exact ink_cons_congr c (ih 0)
      | some n =>
        simp only [replaceFrom, hm, Option.map_some, ink_append, hw, List.nil_append]
        exact ih (n - 1)

theorem ink_replaceParagraphs {w : Text} (hw : ink w = []) (s : Text) :
    ink (replaceParagraphs w s) = ink (replaceParagraphs [] s) :=
  ink_replaceFrom hw 0 s

/-- A recogniser that does not see past `c`, and takes nothing that is not there, leaves the two sides
of a `c` apart. -/
theorem replaceFrom_append_cons {m : Text → Option (Nat × Text)} {c : Char}
    (hblind : ∀ x y, m (x ++ c :: y) = m x) (hnil : m [] = none)
    (hfit : ∀ x n w, m x = some (n, w) → n ≤ x.length) (y : Text) {k : Nat} {x : Text}
    (hk : k ≤ x.length) :
    replaceFrom m k (x ++ c :: y) = replaceFrom m k x ++ c :: replaceFrom m 0 y := by
  induction x generalizing k with
  | nil =>
    obtain rfl : k = 0 := by simpa using hk
    have hc : m (c :: y) = none := (hblind [] y).trans hnil
    simp [replaceFrom, hc]
  | cons d x ih =>
    cases k with
    | succ k => exact ih (by simpa using hk)
    | zero =>
      have hsame : m (d :: (x ++ c :: y)) = m (d :: x) := hblind (d :: x) y
      simp only [List.cons_append, replaceFrom, hsame]
      cases hm : m (d :: x) with
      | none => simp [ih (Nat.zero_le _)]
      | some hit =>
        have hn : hit.1 - 1 ≤ x.length := by
          have := hfit _ hit.1 hit.2 hm
          rw [List.length_cons] at this
          omega
        simp [ih hn]

/-- The spellings of a paragraph marker. -/
def paragraphMarkers : List Text := ["<p>".toList, "<P>".toList, "</p>".toList, "</P>".toList]

/-- A paragraph marker is found exactly if one of its spellings stands there. -/
theorem paragraphMarker?_eq_some_iff {s : Text} {n : Nat} :
    paragraphMarker? s = some n ↔ ∃ w ∈ paragraphMarkers, w <+: s ∧ w.length = n := by
  constructor
  · intro h
    unfold paragraphMarker? at h
    split at h
    · rename_i p r
      split at h
      · rename_i hp
        obtain rfl := Option.some.inj h
        rcases hp with rfl | rfl
        · exact ⟨"<p>".toList, by decide, ⟨r, rfl⟩, rfl⟩
        · exact ⟨"<P>".toList, by decide, ⟨r, rfl⟩, rfl⟩
      · exact absurd h (by simp)
    · rename_i p r _
      split at h
      · rename_i hp
        obtain rfl := Option.some.inj h
        rcases hp with rfl | rfl
        · exact ⟨"</p>".toList, by decide, ⟨r, rfl⟩, rfl⟩
        · exact ⟨"</P>".toList, by decide, ⟨r, rfl⟩, rfl⟩
      · exact absurd h (by simp)
    · exact absurd h (by simp)
  · rintro ⟨w, hw, ⟨r, rfl⟩, rfl⟩
    simp only [paragraphMarkers, List.mem_cons, List.not_mem_nil, or_false] at hw
    rcases hw with rfl | rfl | rfl | rfl
    · rfl
    · rfl
    · rfl
    · rfl

/-- A stretch that does not hold `c` is at the head of a text before every `c`, or not at all. -/
theorem prefix_append_cons_iff {w x y : Text} {c : Char} (hc : c ∉ w) :
    w <+: x ++ c :: y ↔ w <+: x := by
  refine ⟨fun h => ?_, fun h => h.trans (List.prefix_append x (c :: y))⟩
  by_cases hle : w.length ≤ x.length
  · exact List.prefix_of_prefix_length_le h (List.prefix_append x (c :: y)) hle
  · have hlong : x ++ [c] <+: w := by
      have hwhole : x ++ [c] <+: x ++ c :: y := ⟨y, by simp⟩
      refine List.prefix_of_prefix_length_le hwhole h ?_
      simp only [List.length_append, List.length_singleton]
      omega
    exact absurd (hlong.subset (by simp)) hc

/-- A marker holds no space, so what stands behind one does not matter. -/
theorem paragraphMarker?_append_space (x y : Text) :
    paragraphMarker? (x ++ ' ' :: y) = paragraphMarker? x := by
  have hspace : ∀ w ∈ paragraphMarkers, ' ' ∉ w := by decide
  apply Option.ext
  intro n
  rw [paragraphMarker?_eq_some_iff, paragraphMarker?_eq_some_iff]
  apply exists_congr
  intro w
  rw [and_congr_right_iff]
  intro hw
  rw [prefix_append_cons_iff (hspace w hw)]

theorem paragraphMarker?_le_length {x : Text} {n : Nat} (h : paragraphMarker? x = some n) :
    n ≤ x.length := by
  obtain ⟨w, -, hprefix, rfl⟩ := paragraphMarker?_eq_some_iff.mp h
  exact hprefix.length_le

/-- **No marker crosses a space.** -/
theorem replaceParagraphs_append_space (w x y : Text) :
    replaceParagraphs w (x ++ ' ' :: y) = replaceParagraphs w x ++ ' ' :: replaceParagraphs w y := by
  apply replaceFrom_append_cons _ rfl _ y (Nat.zero_le x.length)
  · intro x' y'
    rw [paragraphMarker?_append_space]
  · intro x' n w' hhit
    obtain ⟨n', hmarker, heq⟩ := Option.map_eq_some_iff.mp hhit
    obtain ⟨rfl, -⟩ := Prod.mk.inj heq
    exact paragraphMarker?_le_length hmarker

/-- The ink of a paragraph: that of its lines without their markers. -/
theorem ink_replaceParagraphs_joinWith {w : Text} (hw : ink w = []) (ls : List Text) :
    ink (replaceParagraphs w (joinWith [' '] ls)) =
      ls.flatMap fun l => ink (replaceParagraphs [] l) := by
  rw [ink_replaceParagraphs hw]
  induction ls with
  | nil => rfl
  | cons l ls ih =>
    by_cases hnil : ls = []
    · simp [hnil, joinWith]
    · rw [joinWith_cons [' '] l hnil, List.append_assoc, List.singleton_append,
        replaceParagraphs_append_space, ink_append, ink_cons_space rfl, ih,
        List.flatMap_cons]

end DocMark.Text
