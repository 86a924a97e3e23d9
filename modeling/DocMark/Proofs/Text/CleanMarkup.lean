import DocMark.Proofs.Text.CleanForm

/-!
Markup in clean lines.

Code spans put back-quotes around stretches that are in the text already (`codeElement?_eq_some`). So a clean
line stays clean when its code elements become code spans (`isClean_codeToMarkdown`), and it gains no stretch
without back-quotes (`infix_of_infix_codeToMarkdown`). In particular a line without paragraph markers gains
none on its way to Markdown (`MarkerFree.cleanLine`, `MarkerFree.codeToMarkdown`).
-/

namespace DocMark.Text

/-! ### Code spans -/

/-- A code element becomes the code span of a part of it. -/
theorem codeElement?_eq_some {s w : Text} {n : Nat} (h : codeElement? s = some (n, w)) :
    ∃ body, w = codeSpan body ∧ body <:+: s := by
  unfold codeElement? at h
  split at h
  · rename_i body rest hbody
    obtain ⟨-, rfl⟩ := Prod.mk.inj (Option.some.inj h)
    obtain ⟨r, htag, hup⟩ := Option.bind_eq_some_iff.mp hbody
    obtain ⟨mid, rfl⟩ := upToCodeEnd?_eq_some hup
    have hpart : body <:+: body ++ mid ++ rest := ⟨[], mid ++ rest, by simp⟩
    exact ⟨body, rfl, hpart.trans (afterCodeTag?_suffix htag).isInfix⟩
  · cases h

/-- Behind a skipped stretch or not, a text begins as before or with a back-quote. -/
theorem head?_codeToMarkdown (s : Text) :
    (codeToMarkdown s).head? = s.head? ∨ (codeToMarkdown s).head? = some '`' := by
  cases s with
  | nil => exact Or.inl rfl
  | cons c r =>
    rw [codeToMarkdown, replaceAll, replaceFrom]
    split
    · rename_i n w hhit
      obtain ⟨body, rfl, -⟩ := codeElement?_eq_some hhit
      exact Or.inr rfl
    · exact Or.inl rfl

/-- A relation between neighbours that back-quotes have with everything is kept. -/
theorem isChain_replaceFrom_codeElement {R : Char → Char → Prop} (hleft : ∀ a, R '`' a)
    (hright : ∀ a, R a '`') {s : Text} (h : s.IsChain R) (k : Nat) :
    (replaceFrom codeElement? k s).IsChain R := by
  induction s generalizing k with
  | nil =>
    rw [replaceFrom]
    exact List.isChain_nil
  | cons c r ih =>
    have htail : r.IsChain R := h.tail
    cases k with
    | succ k => exact ih htail k
    | zero =>
      rw [replaceFrom]
      split
      · rename_i n w hhit
        obtain ⟨body, rfl, hbody⟩ := codeElement?_eq_some hhit
        have hclose : (body ++ ['`']).IsChain R := by
          have hinner : body.IsChain R := List.IsChain.infix h hbody
          refine List.isChain_append.mpr ⟨hinner, List.isChain_singleton _, fun x _ y hy => ?_⟩
          obtain rfl := Option.some.inj hy
          exact hright x
        have hspan : (codeSpan body).IsChain R :=
          List.isChain_cons.mpr ⟨fun y _ => hleft y, hclose⟩
        refine List.isChain_append.mpr ⟨hspan, ih htail (n - 1), fun x hx y _ => ?_⟩
        have hlast : (codeSpan body).getLast? = some '`' := List.getLast?_concat
        obtain rfl := Option.some.inj (hlast.symm.trans hx)
        exact hleft y
      · refine List.isChain_cons.mpr ⟨fun y hy => ?_, ih htail 0⟩
        rcases head?_codeToMarkdown r with hsame | hquote
        · exact (List.isChain_cons.mp h).1 y (hsame ▸ hy)
        · obtain rfl := Option.some.inj (hquote.symm.trans hy)
          exact hright c

/-- **Code spans keep a clean line clean.** -/
theorem isClean_codeToMarkdown {s : Text} (h : IsClean s) : IsClean (codeToMarkdown s) := by
  refine ⟨fun c hc => ?_, fun c hc => ?_, ?_⟩
  · rcases head?_codeToMarkdown s with hsame | hquote
    · exact h.head c (hsame ▸ hc)
    · obtain rfl := Option.some.inj (hquote.symm.trans hc)
      rfl
  · by_cases hnil : s = []
    · rw [hnil] at hc
      cases hc
    · obtain ⟨d, hd, hink⟩ := endsInInk_codeToMarkdown (h.endsInInk hnil)
      exact Option.some.inj (hd.symm.trans hc) ▸ hink
  · exact isChain_replaceFrom_codeElement (fun _ => apart_of_ink_left rfl) (fun _ => apart_of_ink_right rfl)
      h.apart 0

/-! ### Stretches without back-quotes -/

/-- A beginning of the Markdown without back-quotes is one of the text. -/
theorem prefix_of_prefix_codeToMarkdown {v : Text} (hv : '`' ∉ v) {s : Text} (h : v <+: codeToMarkdown s) :
    v <+: s := by
  induction s generalizing v with
  | nil => exact h
  | cons c r ih =>
    cases v with
    | nil => exact List.nil_prefix
    | cons d v =>
      rw [codeToMarkdown, replaceAll, replaceFrom] at h
      split at h
      · rename_i n w hhit
        obtain ⟨body, rfl, -⟩ := codeElement?_eq_some hhit
        obtain ⟨rfl, -⟩ := List.cons_prefix_cons.mp h
        exact absurd List.mem_cons_self hv
      · obtain ⟨rfl, hrest⟩ := List.cons_prefix_cons.mp h
        exact List.cons_prefix_cons.mpr ⟨rfl, ih (fun hmem => hv (List.mem_cons_of_mem d hmem)) hrest⟩

/-- What stands in the Markdown without back-quotes stands in the text. -/
theorem infix_of_infix_replaceFrom_codeElement {v : Text} (hv : '`' ∉ v) {k : Nat} {s : Text}
    (h : v <:+: replaceFrom codeElement? k s) : v <:+: s := by
  induction s generalizing k with
  | nil =>
    rw [replaceFrom] at h
    exact h
  | cons c r ih =>
    cases k with
    | succ k => exact (ih h).trans (List.suffix_cons c r).isInfix
    | zero =>
      rw [replaceFrom] at h
      split at h
      · rename_i n w hhit
        -- Between the back-quotes of a code span stands a stretch of the text.
        obtain ⟨body, rfl, hbody⟩ := codeElement?_eq_some hhit
        have hspan : codeSpan body ++ replaceFrom codeElement? (n - 1) r =
            [] ++ '`' :: (body ++ '`' :: replaceFrom codeElement? (n - 1) r) := by
          simp [codeSpan]
        rw [hspan, infix_append_cons_iff hv, infix_append_cons_iff hv] at h
        rcases h with h | h | h
        · exact h.trans List.nil_infix
        · exact h.trans hbody
        · exact (ih h).trans (List.suffix_cons c r).isInfix
      · rcases List.infix_cons_iff.mp h with h | h
        · cases v with
          | nil => exact List.nil_infix
          | cons d v =>
            obtain ⟨rfl, hrest⟩ := List.cons_prefix_cons.mp h
            have htail := prefix_of_prefix_codeToMarkdown (fun hmem => hv (List.mem_cons_of_mem d hmem)) hrest
            exact (List.cons_prefix_cons.mpr ⟨rfl, htail⟩).isInfix
        · exact (ih h).trans (List.suffix_cons c r).isInfix

/-- **Code spans add no stretch without back-quotes.** -/
theorem infix_of_infix_codeToMarkdown {v s : Text} (hv : '`' ∉ v) (h : v <:+: codeToMarkdown s) : v <:+: s :=
  infix_of_infix_replaceFrom_codeElement hv h

/-! ### Texts without paragraph markers -/

/-- A stretch of ink lies in one word. -/
theorem infix_iff_exists_word {v : Text} (hne : v ≠ []) (hv : ∀ c ∈ v, isSpace c = false) (s : Text) :
    v <:+: s ↔ ∃ u ∈ words s, v <:+: u := by
  induction hn : s.length using Nat.strongRecOn generalizing s with
  | _ n ih =>
    by_cases hspace : ∃ c ∈ s, isSpace c = true
    · obtain ⟨c, hmem, hc⟩ := hspace
      obtain ⟨x, y, rfl⟩ := List.append_of_mem hmem
      have hnot : c ∉ v := fun hcv => by simp [hv c hcv] at hc
      simp only [List.length_append, List.length_cons] at hn
      rw [infix_append_cons_iff hnot, words_append_space hc, ih x.length (by omega) x rfl,
        ih y.length (by omega) y rfl]
      simp only [List.mem_append, or_and_right, exists_or]
    · have hink : ∀ c ∈ s, isSpace c = false := fun c hc => by simpa using fun hsp => hspace ⟨c, hc, hsp⟩
      by_cases hnil : s = []
      · simp [hnil, hne]
      · simp [words_of_no_space hink hnil]

/-- No paragraph marker stands in the text. -/
def MarkerFree (s : Text) : Prop := ∀ w ∈ paragraphMarkers, ¬ w <:+: s

instance : DecidablePred MarkerFree := fun s =>
  decidable_of_iff (∀ w ∈ paragraphMarkers, ¬ holds w s = true) <|
    forall₂_congr fun _ _ => not_congr holds_iff_infix

/-- A marker is ink and holds no back-quote. -/
theorem ink_of_mem_paragraphMarkers {w : Text} (h : w ∈ paragraphMarkers) :
    w ≠ [] ∧ (∀ c ∈ w, isSpace c = false) ∧ '`' ∉ w := by
  have hall : ∀ w ∈ paragraphMarkers, (!w.isEmpty && (w.all (!isSpace ·) && !w.contains '`')) = true :=
    List.all_eq_true.mp rfl
  simpa using hall w h

namespace MarkerFree

variable {s : Text}

/-- Markers are ink, so only the words of a text matter. -/
theorem of_words_eq {t : Text} (h : MarkerFree s) (heq : words t = words s) : MarkerFree t := by
  intro w hw hpart
  obtain ⟨hne, hink, -⟩ := ink_of_mem_paragraphMarkers hw
  refine h w hw ((infix_iff_exists_word hne hink s).mpr ?_)
  rw [← heq]
  exact (infix_iff_exists_word hne hink t).mp hpart

theorem cleanLine (h : MarkerFree s) : MarkerFree (cleanLine s) := h.of_words_eq (words_cleanLine s)

theorem codeToMarkdown (h : MarkerFree s) : MarkerFree (codeToMarkdown s) := fun w hw hpart =>
  h w hw (infix_of_infix_codeToMarkdown (ink_of_mem_paragraphMarkers hw).2.2 hpart)

theorem tail {c : Char} (h : MarkerFree (c :: s)) : MarkerFree s := fun w hw hpart =>
  h w hw (hpart.trans (List.suffix_cons c s).isInfix)

theorem paragraphMarker?_eq_none (h : MarkerFree s) : paragraphMarker? s = none := by
  refine Option.eq_none_iff_forall_ne_some.mpr fun n hn => ?_
  obtain ⟨w, hw, hprefix, -⟩ := paragraphMarker?_eq_some_iff.mp hn
  exact h w hw hprefix.isInfix

/-- A text without markers is one piece. -/
theorem splitParagraphs_eq (h : MarkerFree s) : splitParagraphs s = [s] := by
  induction s with
  | nil => rfl
  | cons c r ih =>
    have hrest : cutFrom paragraphMarker? 0 r = [r] := ih h.tail
    rw [splitParagraphs, cut, cutFrom, h.paragraphMarker?_eq_none, hrest]
    rfl

theorem replaceParagraphs_eq (h : MarkerFree s) (w : Text) : replaceParagraphs w s = s := by
  induction s with
  | nil => rfl
  | cons c r ih =>
    have hrest : replaceFrom (fun t => (paragraphMarker? t).map fun n => (n, w)) 0 r = r := ih h.tail
    simp only [replaceParagraphs, replaceAll, replaceFrom, h.paragraphMarker?_eq_none, Option.map_none, hrest]

end MarkerFree

/-- A paragraph of lines without markers. -/
theorem replaceParagraphs_joinWith {ps : List Text} (h : ∀ p ∈ ps, MarkerFree p) (w : Text) :
    replaceParagraphs w (joinWith [' '] ps) = joinWith [' '] ps := by
  induction ps with
  | nil => rfl
  | cons p ps ih =>
    have hp := h p List.mem_cons_self
    by_cases hnil : ps = []
    · rw [hnil]
      exact hp.replaceParagraphs_eq w
    · rw [joinWith_cons [' '] p hnil, List.append_assoc, List.singleton_append, replaceParagraphs_append_space,
        hp.replaceParagraphs_eq, ih fun q hq => h q (List.mem_cons_of_mem p hq)]

end DocMark.Text
