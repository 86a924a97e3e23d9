import DocMark.Text.Markup
import Mathlib.Data.List.Basic

/-!
Text without markup.

Code elements and paragraph markers begin with a less-than sign, so a stretch without that sign is
copied as it stands, whatever follows it.
-/

namespace DocMark.Text

/-- A stretch without the character that every hit begins with is copied. -/
theorem replaceAll_append_of_notMem {m : Text → Option (Nat × Text)} {a : Char}
    (hm : ∀ c r, c ≠ a → m (c :: r) = none) {x : Text} (hx : a ∉ x) (s : Text) :
    replaceAll m (x ++ s) = x ++ replaceAll m s := by
  induction x with
  | nil => rfl
  | cons c x ih =>
    have hc : c ≠ a := fun heq => hx (heq ▸ List.mem_cons_self)
    have hcopy : replaceAll m (c :: (x ++ s)) = c :: replaceAll m (x ++ s) := by
      rw [replaceAll, replaceFrom, hm c (x ++ s) hc]
      rfl
    rw [List.cons_append, hcopy, ih fun hmem => hx (List.mem_cons_of_mem c hmem)]
    rfl

theorem codeElement?_eq_none {c : Char} (r : Text) (hc : c ≠ '<') : codeElement? (c :: r) = none := by
  have htag : afterCodeTag? false (c :: r) = none := by
    unfold afterCodeTag?
    split
    · rename_i heq
      exact absurd (List.cons.inj heq).1 hc
    · rfl
  rw [codeElement?, htag]
  rfl

theorem paragraphMarker?_eq_none {c : Char} (r : Text) (hc : c ≠ '<') :
    paragraphMarker? (c :: r) = none := by
  unfold paragraphMarker?
  split
  · rename_i heq
    exact absurd (List.cons.inj heq).1 hc
  · rename_i heq
    exact absurd (List.cons.inj heq).1 hc
  · rfl

/-- A text without a less-than sign has no code elements. -/
theorem codeToMarkdown_eq_self {s : Text} (h : '<' ∉ s) : codeToMarkdown s = s := by
  have hcopy := replaceAll_append_of_notMem (fun c r hc => codeElement?_eq_none r hc) h []
  simpa [codeToMarkdown, replaceAll, replaceFrom] using hcopy

/-- A stretch without a less-than sign keeps what it is when paragraph markers are replaced. -/
theorem replaceParagraphs_append (w : Text) {x : Text} (hx : '<' ∉ x) (s : Text) :
    replaceParagraphs w (x ++ s) = x ++ replaceParagraphs w s := by
  apply replaceAll_append_of_notMem (fun c r hc => ?_) hx s
  rw [paragraphMarker?_eq_none r hc]
  rfl

theorem replaceParagraphs_eq_self (w : Text) {x : Text} (hx : '<' ∉ x) :
    replaceParagraphs w x = x := by
  have hcopy := replaceParagraphs_append w hx []
  simpa [replaceParagraphs, replaceAll, replaceFrom] using hcopy

/-- A paragraph marker at the head of a text is replaced. -/
theorem replaceParagraphs_marker (w s : Text) :
    replaceParagraphs w ("<p>".toList ++ s) = w ++ replaceParagraphs w s := by
  simp [replaceParagraphs, replaceAll, replaceFrom, paragraphMarker?]

end DocMark.Text
