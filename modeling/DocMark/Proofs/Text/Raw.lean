import DocMark.Text.Raw
import Mathlib.Data.List.Infix
import Mathlib.Order.Basic

/-!
Raw texts: their order, and which of them can be encoded.
-/

namespace DocMark

namespace RawChar

/-- Code points tell characters and stray bytes apart: no character is a surrogate. -/
theorem code_injective : Function.Injective code := by
  have hchar : ∀ (c : Char) (b : Fin 128), c.toNat ≠ 0xDC80 + b := by
    intro c b heq
    have hvalid : c.toNat < 0xD800 ∨ 0xDFFF < c.toNat ∧ c.toNat < 0x110000 := c.valid
    omega
  intro a b h
  cases a with
  | char c =>
    cases b with
    | char d => exact congrArg char (Char.toNat_inj.mp h)
    | stray b => exact absurd h (hchar c b)
  | stray a =>
    cases b with
    | char d => exact absurd h.symm (hchar d a)
    | stray b => exact congrArg stray (Fin.ext (Nat.add_left_cancel h))

instance : LinearOrder RawChar :=
  { LinearOrder.lift' code code_injective with lt := (· < ·) }

end RawChar

namespace RawText

theorem ofText_suffix_iff {a b : Text} : ofText a <:+ ofText b ↔ a <:+ b :=
  List.suffix_map_iff_of_injective fun _ _ h => RawChar.char.inj h

def Encodable (t : RawText) : Prop := ∀ c ∈ t, c.isStray = false

instance (t : RawText) : Decidable (Encodable t) :=
  inferInstanceAs (Decidable (∀ c ∈ t, c.isStray = false))

theorem encodable_ofText (t : Text) : Encodable (ofText t) := by
  simp [Encodable, ofText, RawChar.isStray]

@[simp] theorem encodable_append {a b : RawText} : Encodable (a ++ b) ↔ Encodable a ∧ Encodable b := by
  simp only [Encodable, List.mem_append, or_imp, forall_and]

/-- A raw text is a text exactly if it has no stray byte. -/
theorem toText?_ne_none_iff {t : RawText} : t.toText? ≠ none ↔ Encodable t := by
  unfold toText?
  induction t with
  | nil => simp [Encodable]
  | cons c t ih =>
    rw [List.mapM_cons, Encodable, List.forall_mem_cons]
    cases c with
    | stray b => simp [RawChar.char?, RawChar.isStray]
    | char c =>
      rw [Encodable] at ih
      rw [← ih]
      cases t.mapM RawChar.char? <;> simp [RawChar.char?, RawChar.isStray]

/-- Joined names can be encoded exactly if each of them can. -/
theorem encodable_joined_iff {names : List RawText} :
    Encodable (joined names) ↔ ∀ name ∈ names, Encodable name := by
  unfold joined
  induction names with
  | nil => simp [Encodable]
  | cons name names ih =>
    rw [List.forall_mem_cons, ← ih]
    cases names with
    | nil => simp [Encodable]
    | cons next rest =>
      rw [List.intercalate_cons_cons, encodable_append, encodable_append]
      simp [Encodable, RawChar.isStray]

end RawText

end DocMark
