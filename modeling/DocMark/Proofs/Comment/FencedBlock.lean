import DocMark.Comment.Description
import DocMark.Proofs.Text.Lines
import DocMark.Proofs.Text.Trim

/-!
Fenced blocks in the two line machines.

Between two fences both machines write one line for each line they are fed: a description keeps the
line without the white space at its end, a tag value indents it. A marker of a blank line stands for an
empty line in both. `describe_fenced` and `valueOf_fenced` give the whole text of a description or a
value that consists of one fenced block.
-/

namespace DocMark.Comment

/-! ### Descriptions -/

def codeLine (line : Text) : Text := if isBlankMarker line then [] else Text.stripEnd line

/-- Inside a fenced block lines are kept one by one. -/
theorem Draft.foldl_feed_code {d : Draft} (hd : d.inCode = true) {ls : List Text}
    (h : ∀ l ∈ ls, isFence l = false) :
    ls.foldl Draft.feed d = { d with open_ := d.open_ ++ ls.map codeLine } := by
  induction ls generalizing d with
  | nil => simp
  | cons l ls ih =>
    have hfeed : d.feed l = { d with open_ := d.open_ ++ [codeLine l] } := by
      simp [Draft.feed, h l List.mem_cons_self, hd, Draft.addOpen, codeLine]
    rw [List.foldl_cons, hfeed, ih (d := { d with open_ := d.open_ ++ [codeLine l] }) hd
      fun k hk => h k (List.mem_cons_of_mem l hk)]
    simp

/-- **A description that is one fenced block.** -/
theorem describe_fenced {raw f g : Text} {ls : List Text} (hraw : lineTexts raw = f :: ls ++ [g])
    (hf : isFence f = true) (hg : isFence g = true) (h : ∀ l ∈ ls, isFence l = false) :
    describe raw =
      Text.joinWith ['\n'] (Text.strip f :: ls.map codeLine ++ [Text.strip g]) := by
  have hopen : Draft.feed {} f = { open_ := [Text.strip f], inCode := true } := by
    rw [Draft.feed, if_pos hf]
    rfl
  rw [describe, hraw, List.cons_append, List.foldl_cons, hopen, List.foldl_append,
    Draft.foldl_feed_code rfl h, List.foldl_cons, List.foldl_nil, Draft.feed, if_pos hg]
  rfl

/-! ### Values of tags -/

def indented (code : Text) : Text := if code.isEmpty then [] else indent ++ code

namespace LineWrap

/-- Code goes on a line of its own. -/
theorem feedCode_eq (w : LineWrap) (line : Text) :
    w.feedCode line = { w with buffer := w.buffer ++ (indented (codeOf line) ++ ['\n']) } := by
  unfold feedCode
  split
  · rename_i hcode
    rw [hcode]
    rfl
  · rename_i hcode
    rw [indented, if_neg (by simpa using hcode)]
    simp

/-- Inside a fenced block lines are written one by one. -/
theorem foldl_feed_code {w : LineWrap} (hw : w.codeBlock = true) {ls : List Text}
    (h : ∀ l ∈ ls, isFence l = false) :
    ls.foldl feed w =
      { w with buffer := w.buffer ++ ls.flatMap fun l => indented (codeOf l) ++ ['\n'] } := by
  induction ls generalizing w with
  | nil => simp
  | cons l ls ih =>
    have hfeed : w.feed l = { w with buffer := w.buffer ++ (indented (codeOf l) ++ ['\n']) } := by
      rw [← feedCode_eq, feed, if_neg (by simp [h l List.mem_cons_self]), if_pos hw]
    rw [List.foldl_cons, hfeed,
      ih (w := { w with buffer := w.buffer ++ (indented (codeOf l) ++ ['\n']) }) hw
        fun k hk => h k (List.mem_cons_of_mem l hk)]
    simp

/-- The buffer after one fenced block: a line feed, and the lines of the block. -/
theorem buffer_feedAll_fenced {f g : Text} {ls : List Text} (hf : isFence f = true)
    (hg : isFence g = true) (h : ∀ l ∈ ls, isFence l = false) :
    (feedAll ([] :: (f :: ls ++ [g]))).buffer =
      '\n' :: ((indent ++ Text.strip f) :: ls.map fun l => indented (codeOf l)).flatMap (· ++ ['\n']) ++
        (indent ++ Text.strip g ++ ['\n']) := by
  have hstart : feed {} [] = {} := rfl
  have hopen : feed {} f =
      { codeBlock := true, buffer := '\n' :: (indent ++ Text.strip f ++ ['\n']) } := by
    rw [feed, if_pos hf]
    rfl
  rw [feedAll, List.foldl_cons, hstart, List.cons_append, List.foldl_cons, hopen,
    List.foldl_append, foldl_feed_code rfl h, List.foldl_cons, List.foldl_nil, feed, if_pos hg]
  simp [feedFence, List.flatMap_map]

/-- The value of one fenced block. -/
theorem value_feedAll_fenced {f g : Text} {ls : List Text} (hf : isFence f = true)
    (hg : isFence g = true) (h : ∀ l ∈ ls, isFence l = false) (hne : Text.strip g ≠ []) :
    (feedAll ([] :: (f :: ls ++ [g]))).value =
      '\n' :: Text.joinWith ['\n'] ((indent ++ Text.strip f) ::
        ls.map (fun l => indented (codeOf l)) ++ [indent ++ Text.strip g]) := by
  have hbreak : ∀ c ∈ ['\n'], Text.isSpace c = true := List.all_eq_true.mp rfl
  rw [value, buffer_feedAll_fenced hf hg h, Text.joinWith_concat, Text.stripEnd,
    ← List.append_assoc, Text.trimEnd_append_of_all _ hbreak, Text.trimEnd_eq_self]
  · rfl
  · intro c hc
    rw [← List.append_assoc, List.getLast?_append_of_ne_nil _ hne] at hc
    exact Text.not_of_getLast?_trimEnd hc

end LineWrap

/-! ### Cutting a value into lines -/

theorem cutFrom_ne_nil (m : Text → Option Nat) (k : Nat) (s : Text) : Text.cutFrom m k s ≠ [] := by
  induction s generalizing k with
  | nil => simp [Text.cutFrom]
  | cons c r ih =>
    cases k with
    | succ k => exact ih k
    | zero =>
      rw [Text.cutFrom]
      split
      · simp
      · rw [Text.consHead_eq_modifyHead (ih 0)]
        simp [ih]

/-- Only a line ending can begin a continuation. -/
theorem continuation?_eq_none {c : Char} (hn : c ≠ '\n') (hr : c ≠ '\r') (s : Text) :
    continuation? (c :: s) = none := by
  unfold continuation?
  split
  · rename_i heq
    exact absurd (List.cons.inj heq).1 hn
  · rename_i heq
    exact absurd (List.cons.inj heq).1 hr
  · rfl

/-- A stretch without line endings stays in one piece. -/
theorem cut_continuation_append {l : Text} (hn : '\n' ∉ l) (hr : '\r' ∉ l) (s : Text) :
    Text.cut continuation? (l ++ s) = (Text.cut continuation? s).modifyHead (l ++ ·) := by
  induction l with
  | nil => exact (congrFun List.modifyHead_id (Text.cut continuation? s)).symm
  | cons c l ih =>
    have hcn : c ≠ '\n' := fun heq => hn (heq ▸ List.mem_cons_self)
    have hcr : c ≠ '\r' := fun heq => hr (heq ▸ List.mem_cons_self)
    specialize ih (fun hmem => hn (List.mem_cons_of_mem c hmem))
      (fun hmem => hr (List.mem_cons_of_mem c hmem))
    rw [List.cons_append, Text.cut, Text.cutFrom, continuation?_eq_none hcn hcr]
    have hne : Text.cut continuation? (l ++ s) ≠ [] := cutFrom_ne_nil _ 0 _
    change Text.consHead c (Text.cut continuation? (l ++ s)) = _
    rw [Text.consHead_eq_modifyHead hne, ih, List.modifyHead_modifyHead]
    rfl

/-- A line feed with a gutter cuts. -/
theorem cut_continuation_gutter (s : Text) :
    Text.cut continuation? ("\n *".toList ++ s) = [] :: Text.cut continuation? s := by
  have hgutter : continuation? ('\n' :: ' ' :: '*' :: s) = some 3 := by
    have hdrop : (' ' :: '*' :: s).dropWhile Text.isBlank = '*' :: s := rfl
    simp only [continuation?, Option.map_some, hdrop, List.length_cons, Option.some.injEq]
    omega
  change Text.cutFrom continuation? 0 ('\n' :: ' ' :: '*' :: s) = _
  rw [Text.cutFrom, hgutter]
  rfl

/-- The lines behind gutters are found again by cutting at the continuations. -/
theorem cut_continuation_flatMap {ls : List Text} (h : ∀ l ∈ ls, '\n' ∉ l ∧ '\r' ∉ l) :
    Text.cut continuation? (ls.flatMap fun l => "\n *".toList ++ l) = [] :: ls := by
  induction ls with
  | nil => rfl
  | cons l ls ih =>
    obtain ⟨hn, hr⟩ := h l List.mem_cons_self
    rw [List.flatMap_cons, List.append_assoc, cut_continuation_gutter,
      cut_continuation_append hn hr, ih fun k hk => h k (List.mem_cons_of_mem l hk)]
    simp

end DocMark.Comment
