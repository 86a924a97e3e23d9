import DocMark.Proofs.Text.Lines
import DocMark.Proofs.Text.Words
import DocMark.Source.Declaration

/-!
Which declarations are class-like.

A class-like declaration is a run of modifiers and a keyword, with white space behind every word. The recogniser
looks at the words of the whole line, so it reads over a modifier and the white space behind it
(`isClassLike_modifier`), and the first word that is no modifier decides (`isClassLike_word_iff`). Main statement:
`isClassLike_grammar`, the recogniser accepts exactly this grammar.
-/

namespace DocMark.Source

open Text

/-! ### Words with white space behind them -/

/-- A word: some characters, none of them white space. -/
def IsWord (w : Text) : Prop := w ≠ [] ∧ ∀ c ∈ w, isSpace c = false

/-- A text that does not continue a word before it: it is empty or begins with white space. -/
def EndsWord (s : Text) : Prop := ∀ c, s.head? = some c → isSpace c = true

theorem pieces_eq_splitOnP (s : Text) : pieces s = s.splitOnP isSpace := by
  induction s with
  | nil => rfl
  | cons c r ih =>
    rw [pieces, List.splitOnP_cons_eq_if_modifyHead, ih]
    split
    · rfl
    · rw [consHead_eq_modifyHead (List.splitOnP_ne_nil _ r)]

/-- The words behind the first one that have white space behind them. -/
def laterWords (s : Text) : List Text := (pieces s).dropLast.filter (· ≠ [])

section Words

variable {w r : Text} {c : Char}

theorem dropLast_pieces_append (hw : ∀ d ∈ w, isSpace d = false) (hc : isSpace c = true) (r : Text) :
    (pieces (w ++ c :: r)).dropLast = w :: (pieces r).dropLast := by
  rw [pieces_eq_splitOnP, List.splitOnP_append_cons w r hc, List.splitOnP_eq_singleton hw, List.singleton_append,
    List.dropLast_cons_of_ne_nil (List.splitOnP_ne_nil _ r), pieces_eq_splitOnP]

theorem dropLast_pieces_eq_nil (hw : ∀ d ∈ w, isSpace d = false) : (pieces w).dropLast = [] := by
  rw [pieces_eq_splitOnP, List.splitOnP_eq_singleton hw]
  rfl

/-- A word with white space behind it is the first, and the later words follow. -/
theorem spacedWords_append (hw : ∀ d ∈ w, isSpace d = false) (hc : isSpace c = true) (r : Text) :
    spacedWords (w ++ c :: r) = w :: laterWords r := by
  rw [spacedWords, dropLast_pieces_append hw hc]
  rfl

theorem spacedWords_eq_nil (hw : ∀ d ∈ w, isSpace d = false) : spacedWords w = [] := by
  rw [spacedWords, dropLast_pieces_eq_nil hw]

theorem laterWords_spaces_append {gap : Text} (h : ∀ d ∈ gap, isSpace d = true) (r : Text) :
    laterWords (gap ++ r) = laterWords r := by
  induction gap with
  | nil => rfl
  | cons c gap ih =>
    have hhead : (pieces (c :: (gap ++ r))).dropLast = [] :: (pieces (gap ++ r)).dropLast :=
      dropLast_pieces_append (List.forall_mem_nil _) (h c List.mem_cons_self) (gap ++ r)
    rw [List.cons_append, laterWords, hhead, List.filter_cons_of_neg (by simp)]
    exact ih fun d hd => h d (List.mem_cons_of_mem c hd)

/-- A text is one word, or begins with a word that has white space behind it. The word may be empty. -/
theorem firstWord_cases (s : Text) :
    (∀ d ∈ s, isSpace d = false) ∨
      ∃ w c r, (∀ d ∈ w, isSpace d = false) ∧ isSpace c = true ∧ s = w ++ c :: r := by
  cases hfind : s.find? isSpace with
  | none => exact Or.inl fun d hd => by simpa using List.find?_eq_none.mp hfind d hd
  | some c =>
    obtain ⟨hc, w, r, hs, hw⟩ := List.find?_eq_some_iff_append.mp hfind
    exact Or.inr ⟨w, c, r, fun d hd => by simpa using hw d hd, hc, hs⟩

/-- Where a text begins with a word, this word is none of the later ones. -/
theorem laterWords_eq_spacedWords {y : Text} (hy : ∀ c, y.head? = some c → isSpace c = false) :
    laterWords y = spacedWords y := by
  rcases firstWord_cases y with hw | ⟨w, c, r, hw, hc, rfl⟩
  · rw [spacedWords_eq_nil hw, laterWords, dropLast_pieces_eq_nil hw]
    rfl
  · have hne : w ≠ [] := by
      rintro rfl
      rw [hy c rfl] at hc
      cases hc
    rw [spacedWords_append hw hc, laterWords, dropLast_pieces_append hw hc,
      List.filter_cons_of_pos (by simpa using hne)]
    rfl

end Words

/-! ### Modifiers -/

/-- A run of modifiers, each with white space behind it. -/
inductive ModifierRun : Text → Prop where
  | nil : ModifierRun []
  | cons {m gap rest : Text} (hm : m ∈ modifiers) (hne : gap ≠ []) (hgap : ∀ c ∈ gap, isSpace c = true)
      (hrest : ModifierRun rest) : ModifierRun (m ++ (gap ++ rest))

theorem isWord_of_mem {w : Text} (h : w ∈ modifiers ++ typeKeywords) : IsWord w := by
  have hall : (modifiers ++ typeKeywords).all (fun w => !w.isEmpty && w.all (!isSpace ·)) = true := rfl
  simpa [IsWord] using List.all_eq_true.mp hall w h

theorem isWord_of_mem_modifiers {m : Text} (h : m ∈ modifiers) : IsWord m :=
  isWord_of_mem (List.mem_append_left _ h)

theorem isWord_of_mem_typeKeywords {k : Text} (h : k ∈ typeKeywords) : IsWord k :=
  isWord_of_mem (List.mem_append_right _ h)

/-- No modifier and no keyword begins with another keyword. -/
theorem eq_of_startsWith_typeKeyword {k w : Text} (hk : k ∈ typeKeywords) (hw : w ∈ modifiers ++ typeKeywords)
    (h : k <+: w) : w = k := by
  have hall : (typeKeywords.all fun k => (modifiers ++ typeKeywords).all fun w => !k.isPrefixOf w || w == k) =
      true := rfl
  simpa [List.isPrefixOf_iff_prefix.mpr h] using List.all_eq_true.mp (List.all_eq_true.mp hall k hk) w hw

theorem notMem_modifiers_of_mem_typeKeywords {k : Text} (hk : k ∈ typeKeywords) : k ∉ modifiers := by
  have hall : (typeKeywords.all fun k => !modifiers.contains k) = true := rfl
  simpa using List.all_eq_true.mp hall k hk

theorem IsWord.head_not_space {w : Text} (hw : IsWord w) (rest : Text) {c : Char}
    (h : (w ++ rest).head? = some c) : isSpace c = false := by
  obtain ⟨d, w, rfl⟩ := List.exists_cons_of_ne_nil hw.1
  obtain rfl : d = c := by simpa using h
  exact hw.2 d List.mem_cons_self

/-- What follows a run of modifiers, and what follows the start of one, begins with no white space. -/
theorem ModifierRun.head_not_space {front y : Text} (h : ModifierRun front)
    (hy : ∀ c, y.head? = some c → isSpace c = false) {c : Char} (hc : (front ++ y).head? = some c) :
    isSpace c = false := by
  cases h with
  | nil => exact hy c hc
  | cons hm _ _ _ =>
    rw [List.append_assoc] at hc
    exact (isWord_of_mem_modifiers hm).head_not_space _ hc

/-! ### The recogniser -/

/-- In a list of words, modifiers and then a keyword. -/
def opensClass (ws : List Text) : Bool :=
  match ws.dropWhile (modifiers.contains ·) with
  | w :: _ => typeKeywords.contains w
  | [] => false

theorem isClassLike_eq (line : Text) : isClassLike line = opensClass (spacedWords line) := rfl

theorem opensClass_modifier {m : Text} (hm : m ∈ modifiers) (ws : List Text) :
    opensClass (m :: ws) = opensClass ws := by
  rw [opensClass, List.dropWhile_cons_of_pos (List.contains_iff_mem.mpr hm)]
  rfl

theorem opensClass_word {w : Text} (hw : w ∉ modifiers) (ws : List Text) :
    opensClass (w :: ws) = true ↔ w ∈ typeKeywords := by
  rw [opensClass, List.dropWhile_cons_of_neg (fun h => hw (List.contains_iff_mem.mp h))]
  exact List.contains_iff_mem

/-- **A modifier and the white space behind it are read over.** -/
theorem isClassLike_modifier {m gap y : Text} (hm : m ∈ modifiers) (hne : gap ≠ [])
    (hgap : ∀ c ∈ gap, isSpace c = true) (hy : ∀ c, y.head? = some c → isSpace c = false) :
    isClassLike (m ++ (gap ++ y)) = isClassLike y := by
  obtain ⟨c, gap, rfl⟩ := List.exists_cons_of_ne_nil hne
  rw [isClassLike_eq, isClassLike_eq, List.cons_append,
    spacedWords_append (isWord_of_mem_modifiers hm).2 (hgap c List.mem_cons_self),
    laterWords_spaces_append (fun d hd => hgap d (List.mem_cons_of_mem c hd)), laterWords_eq_spacedWords hy,
    opensClass_modifier hm]

/-- So is a run of them. -/
theorem isClassLike_modifierRun {front y : Text} (h : ModifierRun front)
    (hy : ∀ c, y.head? = some c → isSpace c = false) : isClassLike (front ++ y) = isClassLike y := by
  induction h with
  | nil => rfl
  | cons hm hne hgap hrest ih =>
    rw [List.append_assoc, List.append_assoc,
      isClassLike_modifier hm hne hgap fun _ hc => hrest.head_not_space hy hc, ih]

/-- **The first word that is no modifier decides.** -/
theorem isClassLike_word_iff {w rest : Text} (hw : IsWord w) (hmod : w ∉ modifiers) (hrest : EndsWord rest) :
    isClassLike (w ++ rest) = true ↔ w ∈ typeKeywords ∧ rest ≠ [] := by
  cases rest with
  | nil =>
    rw [List.append_nil, isClassLike_eq, spacedWords_eq_nil hw.2]
    simp [opensClass]
  | cons c r =>
    rw [isClassLike_eq, spacedWords_append hw.2 (hrest c rfl), opensClass_word hmod]
    simp

/-- Behind modifiers, a word decides: it has to be a keyword with something behind it. -/
theorem isClassLike_run_word_iff {front w rest : Text} (hfront : ModifierRun front) (hw : IsWord w)
    (hmod : w ∉ modifiers) (hrest : EndsWord rest) :
    isClassLike (front ++ (w ++ rest)) = true ↔ w ∈ typeKeywords ∧ rest ≠ [] := by
  rw [isClassLike_modifierRun hfront fun _ hc => hw.head_not_space rest hc, isClassLike_word_iff hw hmod hrest]

/-- Behind a word that is neither a modifier nor a keyword, nothing is accepted. -/
theorem isClassLike_eq_false {front w rest : Text} (hfront : ModifierRun front) (hw : IsWord w) (hmod : w ∉ modifiers)
    (hkey : w ∉ typeKeywords) (hrest : EndsWord rest) : isClassLike (front ++ (w ++ rest)) = false :=
  Bool.eq_false_iff.mpr fun h => hkey ((isClassLike_run_word_iff hfront hw hmod hrest).mp h).1

/-- A keyword with more than white space behind it is the start of a longer word. -/
theorem exists_longer_word {k : Text} (hk : IsWord k) {c : Char} (hc : isSpace c = false) (rest : Text) :
    ∃ w rest', IsWord w ∧ k <+: w ∧ w ≠ k ∧ EndsWord rest' ∧ k ++ c :: rest = w ++ rest' := by
  have hword : ∀ v, (∀ d ∈ v, isSpace d = false) → IsWord (k ++ c :: v) ∧ k <+: k ++ c :: v ∧ k ++ c :: v ≠ k := by
    intro v hv
    refine ⟨⟨by simp, ?_⟩, List.prefix_append k (c :: v), by simp⟩
    exact List.forall_mem_append.mpr ⟨hk.2, List.forall_mem_cons.mpr ⟨hc, hv⟩⟩
  rcases firstWord_cases rest with hv | ⟨v, d, r, hv, hd, rfl⟩
  · obtain ⟨hw, hpre, hne⟩ := hword rest hv
    refine ⟨k ++ c :: rest, [], hw, hpre, hne, ?_, (List.append_nil _).symm⟩
    rintro _ ⟨⟩
  · obtain ⟨hw, hpre, hne⟩ := hword v hv
    refine ⟨k ++ c :: v, d :: r, hw, hpre, hne, ?_, by rw [List.append_assoc, List.cons_append]⟩
    rintro _ ⟨⟩
    exact hd

/-- A class-like declaration: a run of modifiers, a keyword, white space and anything behind it. -/
def IsClassDeclaration (line : Text) : Prop :=
  ∃ front k c rest, ModifierRun front ∧ k ∈ typeKeywords ∧ isSpace c = true ∧ line = front ++ (k ++ c :: rest)

/-- A class-like declaration is found to be one. -/
theorem isClassLike_of_isClassDeclaration {line : Text} (h : IsClassDeclaration line) : isClassLike line = true := by
  obtain ⟨front, k, c, rest, hfront, hk, hc, rfl⟩ := h
  have hends : EndsWord (c :: rest) := by
    rintro _ ⟨⟩
    exact hc
  exact (isClassLike_run_word_iff hfront (isWord_of_mem_typeKeywords hk)
    (notMem_modifiers_of_mem_typeKeywords hk) hends).mpr ⟨hk, List.cons_ne_nil c rest⟩

/-- Only a class-like declaration is found to be one. -/
theorem isClassDeclaration_of_isClassLike {line : Text} (h : isClassLike line = true) : IsClassDeclaration line := by
  -- By the length of the line: behind a modifier and the white space that follows it, the line is shorter.
  induction hn : line.length using Nat.strongRecOn generalizing line with
  | _ n ih =>
    rcases firstWord_cases line with hw | ⟨w, c, r, hw, hc, rfl⟩
    · rw [isClassLike_eq, spacedWords_eq_nil hw] at h
      cases h
    · by_cases hm : w ∈ modifiers
      · have hline : w ++ c :: r = w ++ ((c :: r.takeWhile isSpace) ++ r.dropWhile isSpace) := by
          rw [List.cons_append, List.takeWhile_append_dropWhile]
        have hgap : ∀ d ∈ c :: r.takeWhile isSpace, isSpace d = true :=
          List.forall_mem_cons.mpr ⟨hc, fun d hd => List.mem_takeWhile_imp hd⟩
        have hy : ∀ d, (r.dropWhile isSpace).head? = some d → isSpace d = false := by
          intro d hd
          have hhead := List.head?_dropWhile_not isSpace r
          rw [hd] at hhead
          simpa using hhead
        have hlength : (r.dropWhile isSpace).length < n := by
          have hle := (List.dropWhile_suffix isSpace (l := r)).length_le
          rw [← hn, List.length_append, List.length_cons]
          omega
        rw [hline, isClassLike_modifier hm (List.cons_ne_nil _ _) hgap hy] at h
        obtain ⟨front, k, d, rest, hfront, hk, hd, hrest⟩ := ih _ hlength h rfl
        refine ⟨w ++ ((c :: r.takeWhile isSpace) ++ front), k, d, rest,
          .cons hm (List.cons_ne_nil _ _) hgap hfront, hk, hd, ?_⟩
        rw [hline, hrest, List.append_assoc, List.append_assoc]
      · rw [isClassLike_eq, spacedWords_append hw hc, opensClass_word hm] at h
        exact ⟨[], w, c, r, .nil, h, hc, rfl⟩

/-- **Exactly the class-like declarations are accepted**: a run of modifiers and a keyword with white space behind it.
So a keyword that a longer word begins with is not accepted, and nothing is accepted behind a word that is neither a
modifier nor a keyword. -/
theorem isClassLike_grammar (line : Text) :
    (isClassLike line = true ↔ IsClassDeclaration line) ∧
    (∀ front k c rest, ModifierRun front → k ∈ typeKeywords → isSpace c = false →
      line = front ++ (k ++ c :: rest) → isClassLike line = false) ∧
    ∀ front w rest, ModifierRun front → IsWord w → w ∉ modifiers → w ∉ typeKeywords → EndsWord rest →
      line = front ++ (w ++ rest) → isClassLike line = false := by
  refine ⟨⟨isClassDeclaration_of_isClassLike, isClassLike_of_isClassDeclaration⟩, ?_, ?_⟩
  · rintro front k c rest hfront hk hc rfl
    obtain ⟨w, rest', hw, hpre, hne, hends, hline⟩ := exists_longer_word (isWord_of_mem_typeKeywords hk) hc rest
    have hnone : w ∉ modifiers ++ typeKeywords := fun hmem => hne (eq_of_startsWith_typeKeyword hk hmem hpre)
    rw [hline]
    exact isClassLike_eq_false hfront hw (fun hm => hnone (List.mem_append_left _ hm))
      (fun hkey => hnone (List.mem_append_right _ hkey)) hends
  · rintro front w rest hfront hw hmod hkey hrest rfl
    exact isClassLike_eq_false hfront hw hmod hkey hrest

/-- Two modifiers, and behind them a keyword, a longer word and another word. -/
theorem isClassLike_grammar_modifiers :
    ModifierRun "export\tdefault  ".toList ∧
    isClassLike "export\tdefault  class A".toList = true ∧
    isClassLike "export\tdefault  classes A".toList = false ∧
    isClassLike "export\tdefault  big class A".toList = false := by
  have hspace : ∀ {gap : Text}, gap.all isSpace = true → ∀ c ∈ gap, isSpace c = true := List.all_eq_true.mp
  have hdefault : ModifierRun "default  ".toList :=
    @ModifierRun.cons "default".toList "  ".toList [] (by decide) (by decide) (hspace rfl) .nil
  have hfront : ModifierRun "export\tdefault  ".toList :=
    @ModifierRun.cons "export".toList "\t".toList "default  ".toList (by decide) (by decide) (hspace rfl) hdefault
  have hclass : "class".toList ∈ typeKeywords := by decide
  have hink : "big".toList.all (!isSpace ·) = true := rfl
  have hbig : IsWord "big".toList := ⟨by decide, fun c hc => by simpa using List.all_eq_true.mp hink c hc⟩
  refine ⟨hfront, ?_, ?_, ?_⟩
  · exact (isClassLike_grammar _).1.mpr ⟨_, _, ' ', "A".toList, hfront, hclass, rfl, rfl⟩
  · exact (isClassLike_grammar _).2.1 _ _ 'e' "s A".toList hfront hclass rfl rfl
  · refine (isClassLike_grammar _).2.2 _ _ " class A".toList hfront hbig (by decide) (by decide) ?_ rfl
    rintro _ ⟨⟩
    rfl

end DocMark.Source
