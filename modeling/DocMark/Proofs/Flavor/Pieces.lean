import DocMark.Flavor.Basic
import DocMark.Proofs.Pattern.Split
import DocMark.Proofs.Text.Counting

/-!
The pieces of an entry.

Everything that a treatment writes in front of the lower lines of a value is made from its first line:
the tokens (`tokenizeHead_eq_ok`), the types and names (`TypeStyle.exists_formatTypeAndName`) and their
join. So none of it holds a line feed. A type style that is specified never fails.
-/

namespace DocMark

open Text

theorem newline_notMem_joinEntry {pieces : List Text} (h : ∀ p ∈ pieces, '\n' ∉ p) :
    '\n' ∉ joinEntry pieces := by
  have hnone : '\n' ∉ (pieces.filter (· ≠ [])).flatten := by
    intro hmem
    obtain ⟨p, hp, hin⟩ := List.mem_flatten.mp hmem
    exact h p (List.mem_filter.mp hp).1 hin
  have hcount : (joinEntry pieces).count '\n' = 0 := by
    rw [joinEntry, count_joinWith (by decide), List.count_eq_zero_of_not_mem hnone]
  exact List.count_eq_zero.mp hcount

theorem newline_notMem_pair {a b : Text} (ha : '\n' ∉ a) (hb : '\n' ∉ b) :
    '\n' ∉ joinEntry [a, b] :=
  newline_notMem_joinEntry (by simp [ha, hb])

theorem newline_notMem_spanUnlessEmpty {s : Text} (h : '\n' ∉ s) : '\n' ∉ spanUnlessEmpty s := by
  unfold spanUnlessEmpty
  split
  · exact List.not_mem_nil
  · simp [codeSpan, h]

theorem newline_notMem_firstLine (value : Text) : '\n' ∉ (splitFirstLine value).1 := by
  intro hmem
  simpa using List.mem_takeWhile_imp hmem

/-- Tokens are taken from the first line, and the rest of a value is what stands below it. -/
theorem tokenizeHead_sublist {limit : Int} {value tail : Text} {tokens : List Text}
    (h : tokenizeHead limit value = .ok (tokens, tail)) :
    tokens.flatten.Sublist (splitFirstLine value).1 ∧ tail = (splitFirstLine value).2 := by
  unfold tokenizeHead at h
  simp only at h
  cases htokens : Pattern.tokenize (Pattern.run isSpace) limit (splitFirstLine value).1 with
  | error e => simp [htokens, Except.map] at h
  | ok ts =>
    rw [htokens] at h
    obtain ⟨rfl, rfl⟩ := Prod.mk.inj (Except.ok.inj h)
    exact ⟨Separators.flatten_sublist_of_tokenize (Pattern.plain_separators_run isSpace _) htokens, rfl⟩

/-- So no token holds a line feed. -/
theorem tokenizeHead_eq_ok {limit : Int} {value tail : Text} {tokens : List Text}
    (h : tokenizeHead limit value = .ok (tokens, tail)) :
    (∀ t ∈ tokens, '\n' ∉ t) ∧ tail = (splitFirstLine value).2 := by
  obtain ⟨hsub, htail⟩ := tokenizeHead_sublist h
  refine ⟨fun t ht hmem => newline_notMem_firstLine value (hsub.subset ?_), htail⟩
  exact List.mem_flatten.mpr ⟨t, ht, hmem⟩

namespace TypeStyle

theorem dropFinalNewline_sublist (s : Text) : (dropFinalNewline s).Sublist s := by
  unfold dropFinalNewline
  split
  · rename_i r hr
    rw [← List.reverse_reverse s, hr, List.reverse_sublist]
    exact List.sublist_cons_self '\n' r
  · exact List.Sublist.refl s

/-- The type inside braces is a part of the token. -/
theorem unwrap?_sublist {token inner : Text} (h : unwrap? token = some inner) :
    inner.Sublist token := by
  refine List.Sublist.trans ?_ (dropFinalNewline_sublist token)
  unfold unwrap? at h
  split at h
  · rename_i r hr
    split at h
    · rename_i c q hq _
      obtain rfl := Option.some.inj h
      rw [hr, ← hq]
      exact (List.takeWhile_sublist isInner).cons _
    · exact absurd h (by simp)
  · exact absurd h (by simp)

/-- A style that is specified writes every type, on one line. -/
theorem exists_formatType {style : TypeStyle} (hstyle : style ≠ .unspecified) {type : Text}
    (h : '\n' ∉ type) : ∃ out, style.formatType type = .ok out ∧ '\n' ∉ out := by
  cases style with
  | dollar => exact ⟨_, rfl, newline_notMem_spanUnlessEmpty h⟩
  | braced =>
    refine ⟨_, rfl, newline_notMem_spanUnlessEmpty ?_⟩
    cases hin : unwrap? type with
    | none => exact h
    | some inner => exact fun hmem => h ((unwrap?_sublist hin).subset hmem)
  | unspecified => exact absurd rfl hstyle

/-- A style that is given says of every token whether it is a name. -/
theorem exists_acceptsName {style : TypeStyle} (hstyle : style ≠ .unspecified) (type name : Text) :
    ∃ b, style.acceptsName type name = .ok b := by
  cases style with
  | dollar => exact ⟨_, rfl⟩
  | braced => exact ⟨_, rfl⟩
  | unspecified => exact absurd rfl hstyle

/-- A type and a name on one line have Markdown on one line. -/
theorem exists_formatTypeAndName {style : TypeStyle} (hstyle : style ≠ .unspecified) {type name : Text}
    (htype : '\n' ∉ type) (hname : '\n' ∉ name) :
    ∃ out, style.formatTypeAndName type name = .ok out ∧ '\n' ∉ out := by
  have hspan : '\n' ∉ spanUnlessEmpty name := newline_notMem_spanUnlessEmpty hname
  cases style with
  | dollar =>
    refine ⟨_, rfl, ?_⟩
    split
    · exact newline_notMem_pair hspan (newline_notMem_spanUnlessEmpty htype)
    · exact newline_notMem_spanUnlessEmpty htype
  | braced =>
    refine ⟨_, rfl, ?_⟩
    split
    · rename_i inner hin
      have hinner : '\n' ∉ inner := fun hmem => htype ((unwrap?_sublist hin).subset hmem)
      exact newline_notMem_pair hspan (newline_notMem_spanUnlessEmpty hinner)
    · exact newline_notMem_spanUnlessEmpty htype
  | unspecified => exact absurd rfl hstyle

end TypeStyle

end DocMark
