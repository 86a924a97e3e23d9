import DocMark.Proofs.Flavor.TagList
import DocMark.Proofs.Text.Tokens

/-!
The entries of typed tags keep every word.

An entry is made of *pieces*: text as it was written, a token as code, or a type as code without the braces
around it. What a piece was made of is its source. The treatments of typed tags write the pieces of the
first line (`Flavor.exists_writesPieces`), and the words of their sources are the words of that line, each
once. They stand in their order, except that the name of a parameter goes in front of its type
(`addTag_keeps_words`).
-/

namespace DocMark

open Text Comment

/-! ### Pieces -/

/-- A piece of an entry. -/
inductive Piece where
  /-- Text as it was written. -/
  | text (s : Text)
  /-- A token as code. -/
  | code (s : Text)
  /-- The type inside a pair of braces, as code. -/
  | braced (inner : Text)
deriving DecidableEq, Repr

namespace Piece

def markdown : Piece → Text
  | text s => s
  | code s => spanUnlessEmpty s
  | braced inner => spanUnlessEmpty inner

/-- What a piece was made of: back-quotes are taken away, and braces put back. -/
def source : Piece → Text
  | text s => s
  | code s => s
  | braced inner => '\x7b' :: inner ++ ['\x7d']

def text? : Piece → Option Text
  | text s => some s
  | code _ => none
  | braced _ => none

/-- The pieces of an entry that are not empty, in order. -/
def kept (ps : List Piece) : List Piece := ps.filter fun p => p.markdown ≠ []

/-- The words that pieces were made of. -/
def sourceWords (ps : List Piece) : List Text := ps.flatMap fun p => words p.source

/-- The words of the description: of what is shown as it was written. -/
def textWords (ps : List Piece) : List Text := (ps.filterMap text?).flatMap words

theorem joinEntry_map_markdown (ps : List Piece) :
    joinEntry (ps.map markdown) = joinWith entrySeparator ((kept ps).map markdown) := by
  rw [joinEntry, kept, List.filter_map]
  rfl

theorem markdown_ne_nil_of_mem_kept {ps : List Piece} {p : Piece} (h : p ∈ kept ps) : p.markdown ≠ [] := by
  simpa using (List.mem_filter.mp h).2

theorem markdown_code_eq_nil_iff {s : Text} : (code s).markdown = [] ↔ s = [] := by
  cases s with
  | nil => simp [markdown, spanUnlessEmpty]
  | cons c r => simp [markdown, spanUnlessEmpty, codeSpan]

/-- A piece that is not shown was made of nothing, unless it is a pair of braces around nothing. -/
theorem source_eq_nil {p : Piece} (hp : p ≠ braced []) (h : p.markdown = []) : p.source = [] := by
  cases p with
  | text s => exact h
  | code s => exact markdown_code_eq_nil_iff.mp h
  | braced inner => exact absurd (congrArg braced (markdown_code_eq_nil_iff.mp h)) hp

/-- Pieces that are not shown were made of nothing, unless of a pair of braces. -/
theorem sourceWords_kept {ps : List Piece} (h : braced [] ∉ ps) : sourceWords (kept ps) = sourceWords ps := by
  induction ps with
  | nil => rfl
  | cons p ps ih =>
    have hps := ih fun hmem => h (List.mem_cons_of_mem p hmem)
    have hp : p ≠ braced [] := fun heq => h (heq ▸ List.mem_cons_self)
    rw [kept, List.filter_cons]
    split
    · exact congrArg (words p.source ++ ·) hps
    · rename_i hempty
      rw [← kept, hps, sourceWords, sourceWords, List.flatMap_cons, source_eq_nil hp (by simpa using hempty)]
      rfl

/-- Pieces that are not shown have no words. -/
theorem textWords_kept (ps : List Piece) : textWords (kept ps) = textWords ps := by
  induction ps with
  | nil => rfl
  | cons p ps ih =>
    rw [kept, List.filter_cons]
    split
    · rw [← kept]
      cases p with
      | text s => exact congrArg (words s ++ ·) ih
      | code s => exact ih
      | braced inner => exact ih
    · rename_i hempty
      rw [← kept, ih]
      cases p with
      | text s =>
        obtain rfl : s = [] := by
          by_contra hne
          exact hempty (decide_eq_true hne)
        rfl
      | code s => rfl
      | braced inner => rfl

end Piece

open Piece

/-! ### Joining -/

@[simp] theorem joinEntry_singleton (s : Text) : joinEntry [s] = s := by
  by_cases hs : s = []
  · simp [joinEntry, hs, joinWith]
  · simp [joinEntry, hs, joinWith]

/-- Joining in two steps is joining at once. -/
theorem joinEntry_cons_joinEntry (ps qs : List Text) :
    joinEntry (joinEntry ps :: qs) = joinEntry (ps ++ qs) := by
  change joinWith entrySeparator ((joinEntry ps :: qs).filter (· ≠ [])) =
    joinWith entrySeparator ((ps ++ qs).filter (· ≠ []))
  rw [List.filter_cons, List.filter_append]
  by_cases hps : joinEntry ps = []
  · have hnone : ps.filter (· ≠ []) = [] := by
      cases hfilter : ps.filter (· ≠ []) with
      | nil => rfl
      | cons a as =>
        have hmem : a ∈ ps.filter (· ≠ []) := hfilter ▸ List.mem_cons_self
        have ha : a ≠ [] := by simpa using (List.mem_filter.mp hmem).2
        rw [joinEntry, hfilter] at hps
        cases as with
        | nil => exact absurd hps ha
        | cons b bs => simp [joinWith, ha] at hps
    rw [if_neg (by simpa using hps), hnone, List.nil_append]
  · have hsome : ps.filter (· ≠ []) ≠ [] := fun hnil => hps (by rw [joinEntry, hnil]; rfl)
    rw [if_pos (by simpa using hps)]
    by_cases hqs : qs.filter (· ≠ []) = []
    · rw [hqs, List.append_nil]
      rfl
    · rw [joinWith_cons _ _ hqs, joinWith_append _ hsome hqs]
      rfl

/-- Text behind pieces that are joined already is one more piece. -/
theorem joinEntry_append_text (ps : List Piece) (d : Text) :
    joinEntry [joinEntry (ps.map markdown), d] = joinEntry ((ps ++ [Piece.text d]).map markdown) := by
  rw [joinEntry_cons_joinEntry, List.map_append]
  rfl

/-! ### Types and names -/

namespace TypeStyle

theorem dropFinalNewline_eq_self {s : Text} (h : '\n' ∉ s) : dropFinalNewline s = s := by
  unfold dropFinalNewline
  split
  · rename_i r hr
    exact absurd (List.mem_reverse.mp (hr ▸ List.mem_cons_self)) h
  · rfl

/-- A braced type is what stands between the braces, which is not empty. -/
theorem eq_of_unwrap? {token inner : Text} (hn : '\n' ∉ token) (h : unwrap? token = some inner) :
    token = '\x7b' :: inner ++ ['\x7d'] ∧ inner ≠ [] := by
  unfold unwrap? at h
  rw [dropFinalNewline_eq_self hn] at h
  split at h
  · rename_i r
    split at h
    · rename_i c q hq hclose
      obtain rfl := Option.some.inj h
      rw [← hq, List.cons_append, ← hclose, List.takeWhile_append_dropWhile, hq]
      exact ⟨rfl, List.cons_ne_nil c q⟩
    · cases h
  · cases h

def typePiece : TypeStyle → (type : Text) → Piece
  | .braced, type => (unwrap? type).elim (.code type) .braced
  | .dollar, type => .code type
  | .unspecified, type => .code type

variable {style : TypeStyle}

/-- A type is shown as code. In braces, the type inside of them is. -/
theorem typePiece_cases (style : TypeStyle) (type : Text) :
    style.typePiece type = .code type ∨
      ∃ inner, style = .braced ∧ unwrap? type = some inner ∧ style.typePiece type = .braced inner := by
  cases style with
  | braced =>
    cases hin : unwrap? type with
    | none =>
      left
      rw [typePiece, hin]
      rfl
    | some inner =>
      refine Or.inr ⟨inner, rfl, rfl, ?_⟩
      rw [typePiece, hin]
      rfl
  | dollar => exact Or.inl rfl
  | unspecified => exact Or.inl rfl

/-- The piece of a type was made of that type. -/
theorem source_typePiece {type : Text} (hn : '\n' ∉ type) :
    (style.typePiece type).source = type ∧ style.typePiece type ≠ .braced [] := by
  rcases typePiece_cases style type with h | ⟨inner, -, hin, h⟩
  · rw [h]
    exact ⟨rfl, by simp⟩
  · obtain ⟨heq, hne⟩ := eq_of_unwrap? hn hin
    rw [h]
    exact ⟨heq.symm, by simpa using hne⟩

/-- The Markdown of a type is that of its piece. -/
theorem formatType_eq (hstyle : style ≠ .unspecified) (type : Text) :
    style.formatType type = .ok (style.typePiece type).markdown := by
  cases style with
  | dollar => rfl
  | braced =>
    cases hin : unwrap? type with
    | none =>
      rw [formatType, typePiece, hin]
      rfl
    | some inner =>
      rw [formatType, typePiece, hin]
      rfl
  | unspecified => exact absurd rfl hstyle

/-- A name that is accepted stands in front of its type, and one that is not is left out: the two decisions
agree. -/
theorem formatTypeAndName_eq {type name : Text} {accepted : Bool}
    (h : style.acceptsName type name = .ok accepted) :
    style.formatTypeAndName type name =
      .ok (joinEntry ((if accepted then [.code name, style.typePiece type] else [style.typePiece type]).map
        markdown)) := by
  cases style with
  | dollar =>
    obtain rfl : isDollarName name = accepted := Except.ok.inj h
    rw [formatTypeAndName]
    cases isDollarName name with
    | true => rfl
    | false => exact congrArg Except.ok (joinEntry_singleton _).symm
  | braced =>
    obtain rfl : (unwrap? type).isSome = accepted := Except.ok.inj h
    rw [formatTypeAndName, typePiece]
    cases unwrap? type with
    | none => exact congrArg Except.ok (joinEntry_singleton _).symm
    | some inner => rfl
  | unspecified => cases h

end TypeStyle

/-! ### The tokens of a value -/

def typeToken (value : Text) : Text := headToken (splitFirstLine value).1

def nameToken (value : Text) : Text := headToken (afterToken (splitFirstLine value).1)

def remainder (value : Text) : Text := afterToken (afterToken (splitFirstLine value).1)

theorem words_afterToken_firstLine (value : Text) :
    words (afterToken (splitFirstLine value).1) = words (nameToken value) ++ words (remainder value) :=
  words_eq_append_afterToken _

/-- **The words of the first line** are its two tokens and the words of the remainder. -/
theorem words_firstLine (value : Text) :
    words (splitFirstLine value).1 =
      words (typeToken value) ++ words (nameToken value) ++ words (remainder value) := by
  rw [words_eq_append_afterToken, words_afterToken_firstLine, List.append_assoc]
  rfl

theorem newline_notMem_headToken (s : Text) : '\n' ∉ headToken s := by
  intro hmem
  have hspace := not_isSpace_of_mem_headToken hmem
  simp [isSpace] at hspace

/-! ### Treatments -/

namespace Treatment

theorem headAndRest_eq (value : Text) :
    headAndRest value =
      (typeToken value, afterToken (splitFirstLine value).1, (splitFirstLine value).2) := by
  have htokens := tokenizeHead_eq 0 value
  rw [headAndRest, show ((2 : Int) = (0 + 2 : Nat)) from rfl, htokens]
  rfl

theorem entry_text (value : Text) :
    entry .text value =
      .ok (some (joinEntry ([.text (splitFirstLine value).1].map markdown) ++ (splitFirstLine value).2)) := by
  rw [List.map_singleton, joinEntry_singleton]
  exact congrArg (fun v => Except.ok (some v)) (splitFirstLine_append value).symm

theorem entry_typed {style : TypeStyle} (hstyle : style ≠ .unspecified) (value : Text) :
    entry (.typed style) value =
      .ok (some (joinEntry ([style.typePiece (typeToken value),
        .text (afterToken (splitFirstLine value).1)].map markdown) ++ (splitFirstLine value).2)) := by
  rw [entry, headAndRest_eq]
  simp only [TypeStyle.formatType_eq hstyle]
  rfl

/-- Code in front is a type that is written as it stands. -/
theorem entry_leadingCode (value : Text) :
    entry .leadingCode value = entry (.typed .dollar) value :=
  rfl

/-- The pieces of a parameter, given whether its name is accepted. -/
def paramPieces (style : TypeStyle) (accepted : Bool) (value : Text) : List Piece :=
  if accepted then
    [.code (nameToken value), style.typePiece (typeToken value), .text (remainder value)]
  else [style.typePiece (typeToken value),
    .text (if nameToken value = [] then [] else strip (nameToken value ++ ' ' :: remainder value))]

/-- A parameter is joined from its pieces, with the other lines behind them. -/
theorem entry_typedName {style : TypeStyle} {accepted : Bool} {value : Text}
    (h : style.acceptsName (typeToken value) (nameToken value) = .ok accepted) :
    entry (.typedName style) value =
      .ok (some (joinEntry ((paramPieces style accepted value).map markdown) ++ (splitFirstLine value).2)) := by
  have htokens : tokenizeHead 3 value =
      .ok ([typeToken value, nameToken value, remainder value], (splitFirstLine value).2) :=
    tokenizeHead_eq 1 value
  rw [entry, typedNameEntry, htokens]
  simp only [h, TypeStyle.formatTypeAndName_eq h]
  by_cases hname : nameToken value = []
  · -- Without a second token nothing is left for the text.
    have hnone : remainder value = [] := by
      rw [remainder, afterToken_eq_nil_of_headToken hname]
      rfl
    simp only [hname, hnone, paramPieces]
    cases accepted with
    | true => exact congrArg (fun v => Except.ok (some (v ++ _))) (joinEntry_append_text _ _)
    | false => exact congrArg (fun v => Except.ok (some (v ++ _))) (joinEntry_append_text _ _)
  · rw [if_neg (by simpa using hname), paramPieces, if_neg hname]
    cases accepted with
    | true => exact congrArg (fun v => Except.ok (some (v ++ _))) (joinEntry_append_text _ _)
    | false => exact congrArg (fun v => Except.ok (some (v ++ _))) (joinEntry_append_text _ _)

end Treatment

/-! ### Words -/

/-- A type and text behind it. -/
theorem sourceWords_type_text (style : TypeStyle) (value rest : Text) :
    sourceWords [style.typePiece (typeToken value), .text rest] = words (typeToken value) ++ words rest := by
  have htype : '\n' ∉ typeToken value := newline_notMem_headToken _
  rw [sourceWords, List.flatMap_cons, (TypeStyle.source_typePiece htype).1, List.flatMap_singleton]
  rfl

theorem textWords_type_text (style : TypeStyle) (type rest : Text) :
    textWords [style.typePiece type, .text rest] = words rest := by
  rcases TypeStyle.typePiece_cases style type with h | ⟨inner, -, -, h⟩
  · rw [textWords, h]
    exact List.append_nil _
  · rw [textWords, h]
    exact List.append_nil _

/-- A token and the remainder keep their words when they are joined. -/
theorem words_prose (value : Text) :
    words (if nameToken value = [] then [] else strip (nameToken value ++ ' ' :: remainder value)) =
      words (nameToken value) ++ words (remainder value) := by
  split
  · rename_i hname
    have hnone : afterToken (splitFirstLine value).1 = [] := afterToken_eq_nil_of_headToken hname
    rw [← words_afterToken_firstLine, hnone]
  · rw [words_strip, words_append_space rfl]

/-- A name that is accepted changes places with the type. Otherwise all words stand as they were. -/
theorem sourceWords_paramPieces (style : TypeStyle) (accepted : Bool) (value : Text) :
    sourceWords (Treatment.paramPieces style accepted value) =
      if accepted then words (nameToken value) ++ words (typeToken value) ++ words (remainder value)
      else words (splitFirstLine value).1 := by
  cases accepted with
  | true =>
    have hrest := sourceWords_type_text style value (remainder value)
    rw [if_pos rfl, List.append_assoc, ← hrest]
    rfl
  | false =>
    have hrest := sourceWords_type_text style value
      (if nameToken value = [] then [] else strip (nameToken value ++ ' ' :: remainder value))
    rw [words_prose, ← List.append_assoc, ← words_firstLine] at hrest
    exact hrest

/-- The words of the description are those behind the type, or behind the name that is accepted. -/
theorem textWords_paramPieces (style : TypeStyle) (accepted : Bool) (value : Text) :
    textWords (Treatment.paramPieces style accepted value) =
      if accepted then words (remainder value) else words (nameToken value) ++ words (remainder value) := by
  cases accepted with
  | true => exact textWords_type_text style _ _
  | false => exact (textWords_type_text style _ _).trans (words_prose value)

namespace Flavor

def typedKeys : List Text :=
  ["param".toList, "throws".toList, "exception".toList, "return".toList, "returns".toList, "var".toList]

/-- The tag is a parameter, and its second token is accepted as its name. -/
def TakesName (f : Flavor) (key value : Text) : Prop :=
  key = "param".toList ∧ ∃ style, f.kind = .dynamic style ∧
    style.acceptsName (typeToken value) (nameToken value) = .ok true

/-- How the flavors treat typed tags. -/
theorem treatment_of_typedKey {f : Flavor} (hf : f ∈ named) {key : Text} (hkey : key ∈ typedKeys)
    {group : Text} {t : Treatment} (h : f.handling? key = some (group, t)) :
    (f.kind = .static ∧ (t = .text ∨ t = .leadingCode)) ∨
      ∃ style ∈ [TypeStyle.dollar, .braced], f.kind = .dynamic style ∧ (style = .braced → f = jsdoc) ∧
        t = if key = "param".toList then .typedName style else .typed style := by
  have hknown : ∀ f ∈ named, ∀ e ∈ knownTags f.kind, e.1.toList ∈ typedKeys →
      (f.kind = .static ∧ (e.2.2 = .text ∨ e.2.2 = .leadingCode)) ∨
        ∃ style ∈ [TypeStyle.dollar, .braced], f.kind = .dynamic style ∧ (style = .braced → f = jsdoc) ∧
          e.2.2 = if e.1.toList = "param".toList then .typedName style else .typed style := by
    decide
  obtain ⟨⟨k, g, t'⟩, hfind, heq⟩ := Option.map_eq_some_iff.mp h
  obtain ⟨rfl, rfl⟩ : g.toList = group ∧ t' = t := by simpa using heq
  obtain rfl : k.toList = key := by simpa using List.find?_some hfind
  exact hknown f hf _ (List.mem_of_find?_eq_some hfind) hkey

/-- Braces are taken away from types only, and only in the braced style. -/
theorem braced_of_typePiece {f : Flavor} {style : TypeStyle} (hjsdoc : style = .braced → f = jsdoc)
    {value inner : Text} (h : Piece.braced inner = style.typePiece (typeToken value)) :
    inner ≠ [] ∧ f = jsdoc ∧ (Piece.braced inner).source = typeToken value := by
  have htype : '\n' ∉ typeToken value := newline_notMem_headToken _
  obtain ⟨hsource, hne⟩ : (style.typePiece (typeToken value)).source = typeToken value ∧
      style.typePiece (typeToken value) ≠ .braced [] := TypeStyle.source_typePiece htype
  rcases TypeStyle.typePiece_cases style (typeToken value) with hcode | ⟨-, hbraced, -, -⟩
  · cases h.trans hcode
  · refine ⟨?_, hjsdoc hbraced, h ▸ hsource⟩
    rintro rfl
    exact hne h.symm

/-- The entry of a tag is joined from these pieces, some of which may be empty. Braces are taken away by one
flavor only, from the first token. The words that the pieces were made of are those of the first line, in
order, but for a name that is taken. -/
structure WritesPieces (f : Flavor) (key value : Text) (t : Treatment) (ps : List Piece) : Prop where
  entry : t.entry value = .ok (some (joinEntry (ps.map markdown) ++ (splitFirstLine value).2))
  braced : ∀ inner, Piece.braced inner ∈ ps →
    inner ≠ [] ∧ f = jsdoc ∧ (Piece.braced inner).source = typeToken value
  name_taken : f.TakesName key value →
    sourceWords ps = words (nameToken value) ++ words (typeToken value) ++ words (remainder value) ∧
      textWords ps = words (remainder value)
  name_kept : ¬ f.TakesName key value →
    sourceWords ps = words (splitFirstLine value).1 ∧
      (t ≠ .text → textWords ps = words (nameToken value) ++ words (remainder value))

/-- A value that is shown as it was written. -/
theorem writesPieces_text {f : Flavor} {key value : Text} (hnone : ¬ f.TakesName key value) :
    WritesPieces f key value .text [.text (splitFirstLine value).1] where
  entry := Treatment.entry_text value
  braced := by simp
  name_taken htakes := absurd htakes hnone
  name_kept _ := ⟨List.append_nil _, fun htext => absurd rfl htext⟩

/-- A type and text. -/
theorem writesPieces_type {f : Flavor} {key value : Text} {t : Treatment} {style : TypeStyle}
    (hstyle : style ≠ .unspecified) (hjsdoc : style = .braced → f = jsdoc)
    (hnone : ¬ f.TakesName key value) (ht : t.entry value = Treatment.entry (.typed style) value) :
    WritesPieces f key value t
      [style.typePiece (typeToken value), .text (afterToken (splitFirstLine value).1)] where
  entry := ht.trans (Treatment.entry_typed hstyle value)
  braced inner hin := braced_of_typePiece hjsdoc (by simpa using hin)
  name_taken htakes := absurd htakes hnone
  name_kept _ := by
    have hrest := words_afterToken_firstLine value
    refine ⟨?_, fun _ => ?_⟩
    · rw [words_firstLine, List.append_assoc, ← hrest]
      exact sourceWords_type_text style value _
    · rw [← hrest]
      exact textWords_type_text style _ _

/-- A parameter: a type, perhaps a name, and text. -/
theorem writesPieces_param {f : Flavor} {value : Text} {style : TypeStyle} {accepted : Bool}
    (hdynamic : f.kind = .dynamic style) (hjsdoc : style = .braced → f = jsdoc)
    (h : style.acceptsName (typeToken value) (nameToken value) = .ok accepted) :
    WritesPieces f "param".toList value (.typedName style) (Treatment.paramPieces style accepted value) := by
  have htakes : f.TakesName "param".toList value ↔ accepted = true := by
    constructor
    · rintro ⟨-, style', hkind, hname⟩
      obtain rfl : style = style' := by simpa using hdynamic.symm.trans hkind
      exact Except.ok.inj (h.symm.trans hname)
    · rintro rfl
      exact ⟨rfl, style, hdynamic, h⟩
  refine ⟨Treatment.entry_typedName h, fun inner hin => braced_of_typePiece hjsdoc ?_, fun hname => ?_,
    fun hname => ?_⟩
  · cases accepted with
    | true => simpa [Treatment.paramPieces] using hin
    | false => simpa [Treatment.paramPieces] using hin
  · rw [sourceWords_paramPieces, textWords_paramPieces, htakes.mp hname]
    exact ⟨rfl, rfl⟩
  · have hrejected : accepted = false := Bool.eq_false_iff.mpr fun htrue => hname (htakes.mpr htrue)
    rw [sourceWords_paramPieces, textWords_paramPieces, hrejected]
    exact ⟨rfl, fun _ => rfl⟩

/-- Every typed tag writes pieces. -/
theorem exists_writesPieces {f : Flavor} (hf : f ∈ named) {key : Text} (hkey : key ∈ typedKeys)
    {group : Text} {t : Treatment} (h : f.handling? key = some (group, t)) (value : Text) :
    ∃ ps, WritesPieces f key value t ps := by
  rcases treatment_of_typedKey hf hkey h with ⟨hstatic, ht⟩ | ⟨style, hstyle, hdynamic, hjsdoc, ht⟩
  · -- No names are taken where types are in the declaration.
    have hnone : ¬ f.TakesName key value := by
      rintro ⟨-, style, hkind, -⟩
      rw [hstatic] at hkind
      cases hkind
    rcases ht with rfl | rfl
    · exact ⟨_, writesPieces_text hnone⟩
    · have hspec : TypeStyle.dollar ≠ .unspecified := by simp
      exact ⟨_, writesPieces_type hspec (by simp) hnone (Treatment.entry_leadingCode value)⟩
  · have hspec : style ≠ .unspecified := by
      rintro rfl
      simp at hstyle
    by_cases hparam : key = "param".toList
    · obtain ⟨accepted, haccepted⟩ := TypeStyle.exists_acceptsName hspec (typeToken value) (nameToken value)
      rw [ht, if_pos hparam, hparam]
      exact ⟨_, writesPieces_param hdynamic hjsdoc haccepted⟩
    · rw [ht, if_neg hparam]
      exact ⟨_, writesPieces_type hspec hjsdoc (fun htakes => hparam htakes.1) rfl⟩

/-- **Typed tags lose no text.** In every flavor that handles a typed tag, the entry ends with all that
follows the first line of the value. Before that stand pieces, none of them empty, and braces are taken away
only by one flavor and from the first token. The words that the pieces were made of are the words of the first
line, each once and in order; only a name that is accepted goes in front of its type. The text of the entry
holds all words behind the type, except for such a name. -/
theorem addTag_keeps_words {f : Flavor} (hf : f ∈ named) {key : Text} (hkey : key ∈ typedKeys)
    {group : Text} {t : Treatment} (h : f.handling? key = some (group, t)) (value : Text) :
    ∃ pieces : List Piece,
      (∀ gs, f.addTag gs ⟨key, value⟩ = .ok (gs.add group
        (some (joinWith entrySeparator (pieces.map markdown) ++ (splitFirstLine value).2)))) ∧
      (∀ p ∈ pieces, p.markdown ≠ []) ∧
      (∀ inner, Piece.braced inner ∈ pieces → f = jsdoc ∧ (Piece.braced inner).source = typeToken value) ∧
      words (splitFirstLine value).1 =
        words (typeToken value) ++ words (nameToken value) ++ words (remainder value) ∧
      (f.TakesName key value →
        sourceWords pieces = words (nameToken value) ++ words (typeToken value) ++ words (remainder value) ∧
        textWords pieces = words (remainder value)) ∧
      (¬ f.TakesName key value →
        sourceWords pieces = words (splitFirstLine value).1 ∧
        (t ≠ .text → textWords pieces = words (nameToken value) ++ words (remainder value))) := by
  obtain ⟨ps, hps⟩ := exists_writesPieces hf hkey h value
  have hsource : sourceWords (kept ps) = sourceWords ps :=
    sourceWords_kept fun hnil => (hps.braced [] hnil).1 rfl
  refine ⟨kept ps, fun gs => ?_, fun p hp => markdown_ne_nil_of_mem_kept hp, fun inner hin => ?_,
    words_firstLine value, ?_, ?_⟩
  · rw [addTag, h, ← joinEntry_map_markdown]
    simp only [hps.entry]
    rfl
  · exact (hps.braced inner (List.mem_filter.mp hin).1).2
  · rw [hsource, textWords_kept]
    exact hps.name_taken
  · rw [hsource, textWords_kept]
    exact hps.name_kept

/-- A parameter with a name and a list below its first line, and one whose second token is no name. -/
theorem addTag_keeps_words_samples :
    (phpdoc ∈ named ∧ "param".toList ∈ typedKeys ∧
      phpdoc.handling? "param".toList = some ("Parameters".toList, .typedName .dollar) ∧
      ∃ pieces : List Piece,
        (∀ gs, phpdoc.addTag gs ⟨"param".toList, "int $x  the\tfirst\n\n     - one".toList⟩ =
          .ok (gs.add "Parameters".toList
            (some (joinWith entrySeparator (pieces.map markdown) ++ "\n\n     - one".toList)))) ∧
        sourceWords pieces = ["$x".toList, "int".toList, "the".toList, "first".toList] ∧
        textWords pieces = ["the".toList, "first".toList]) ∧
    jsdoc ∈ named ∧
      jsdoc.handling? "param".toList = some ("Parameters".toList, .typedName .braced) ∧
      ∃ pieces : List Piece,
        (∀ gs, jsdoc.addTag gs ⟨"param".toList, "Array of ints".toList⟩ =
          .ok (gs.add "Parameters".toList (some (joinWith entrySeparator (pieces.map markdown) ++ [])))) ∧
        sourceWords pieces = ["Array".toList, "of".toList, "ints".toList] ∧
        textWords pieces = ["of".toList, "ints".toList] := by
  have hphpdoc : phpdoc ∈ named := by simp [named]
  have hjsdoc : jsdoc ∈ named := by simp [named]
  have hkey : "param".toList ∈ typedKeys := List.mem_cons_self
  have htaken : phpdoc.TakesName "param".toList "int $x  the\tfirst\n\n     - one".toList :=
    ⟨rfl, .dollar, rfl, rfl⟩
  have hkept : ¬ jsdoc.TakesName "param".toList "Array of ints".toList := by
    rintro ⟨-, style, hkind, hname⟩
    obtain rfl : TypeStyle.braced = style := by simpa [jsdoc] using hkind
    exact absurd hname (by decide)
  refine ⟨⟨hphpdoc, hkey, rfl, ?_⟩, hjsdoc, rfl, ?_⟩
  · obtain ⟨pieces, hadd, -, -, -, hname, -⟩ := addTag_keeps_words hphpdoc hkey rfl
      "int $x  the\tfirst\n\n     - one".toList
    exact ⟨pieces, hadd, hname htaken⟩
  · obtain ⟨pieces, hadd, -, -, -, -, hname⟩ := addTag_keeps_words hjsdoc hkey rfl "Array of ints".toList
    exact ⟨pieces, hadd, (hname hkept).1, (hname hkept).2 (by simp)⟩

end Flavor

end DocMark
