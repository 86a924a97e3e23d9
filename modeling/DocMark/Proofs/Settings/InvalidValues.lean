import DocMark.Proofs.Settings.Layers
import Mathlib.Data.List.Basic

/-!
Values that are not valid for their setting.

A document may hold a value of any kind under each key. What a setting accepts is said for each of them
(`Setting.Accepts`). A layer is silent about a setting whose value is not accepted, so the setting stays as it
was below (`Setting.sameIn_over_file`, `Setting.sameIn_over_env`). Loading nevertheless ends at some of these
values: an infinite heading level, an output directory that is no text, excluded names that are no list, and
whole numbers that are too long to be written, where a setting is taken from the text of its value
(`Setting.Aborts`). `load_invalid_values` says that these are all.
-/

namespace DocMark

open Float.Model in
/-- A number has no exact value exactly if it is infinite or no number. -/
theorem Dyadic.ofFloat?_eq_none_iff (f : Float) :
    ofFloat? f = none ↔ f.isInf = true ∨ f.isNaN = true := by
  have hexponent : (@UnpackedFloat.unpackExponent Format.binary64 f.toModel.toBits.toBitVec).toNat =
      f.toBits.toNat / Nat.pow 2 52 % Nat.pow 2 11 := by
    rw [UnpackedFloat.unpackExponent, BitVec.toNat_cast, BitVec.extractLsb_toNat, Nat.shiftRight_eq_div_pow]
    rfl
  have hones : @UnpackedFloat.unpackExponent Format.binary64 f.toModel.toBits.toBitVec = -1#11 ↔
      f.toBits.toNat / Nat.pow 2 52 % Nat.pow 2 11 = 2047 := by
    rw [← hexponent, ← BitVec.toNat_inj]
    rfl
  have hnone : ofFloat? f = none ↔ f.toBits.toNat / Nat.pow 2 52 % Nat.pow 2 11 = 2047 := by
    unfold ofFloat?
    dsimp only
    split
    · exact iff_of_true rfl ‹_›
    · split
      · exact iff_of_false (by simp) ‹_›
      · exact iff_of_false (by simp) ‹_›
  rw [hnone, ← hones]
  unfold Float.isInf Float.isNaN Float.Model.isInf Float.Model.isNaN unpack UnpackedFloat.unpack
  dsimp only
  by_cases hpower : @UnpackedFloat.unpackExponent Format.binary64 f.toModel.toBits.toBitVec = -1#11
  · refine iff_of_true hpower ?_
    rw [if_pos hpower]
    split
    · exact Or.inl rfl
    · exact Or.inr rfl
  · refine iff_of_false hpower ?_
    have hfinite : ∀ u : UnpackedFloat, u.isInf = false → u.isNaN = false →
        ¬ (u.isInf = true ∨ u.isNaN = true) := by
      intro u hinf hnan
      rw [hinf, hnan, or_self]
      exact Bool.false_ne_true
    rw [if_neg hpower]
    by_cases hleast : @UnpackedFloat.unpackExponent Format.binary64 f.toModel.toBits.toBitVec = 0#11
    · rw [if_pos hleast]
      by_cases hzero : @UnpackedFloat.unpackMantissa Format.binary64 f.toModel.toBits.toBitVec = 0#52
      · rw [dif_pos hzero]
        exact hfinite _ rfl rfl
      · rw [dif_neg hzero]
        exact hfinite _ rfl rfl
    · rw [if_neg hleast]
      exact hfinite _ rfl rfl

theorem isNaN_of_isInf {f : Float} (h : f.isInf = true) : f.isNaN = false := by
  unfold Float.isInf Float.Model.isInf at h
  unfold Float.isNaN Float.Model.isNaN
  cases hunpack : f.toModel.unpack with
  | notANumber =>
    rw [hunpack] at h
    cases h
  | _ => rfl

/-! ### Values without a text -/

namespace Value

/-- A whole number of too many digits, or an array or a table that holds one. -/
inductive HoldsLong : Value → Prop where
  | int {i : Int} (h : Nat.pow 10 Text.maxDigits ≤ i.natAbs) : HoldsLong (.int i)
  | item {xs : List Value} {v : Value} (hv : v ∈ xs) (h : HoldsLong v) : HoldsLong (.arr xs)
  | field {fs : Fields} {e : Text × Value} (he : e ∈ fs) (h : HoldsLong e.2) : HoldsLong (.obj fs)

/-- A whole number has no text exactly if it has too many digits. -/
theorem ofInt?_eq_none_iff (i : Int) : Text.ofInt? i = none ↔ HoldsLong (.int i) := by
  have hlength : Text.maxDigits < (Text.ofNat i.natAbs).length ↔ Nat.pow 10 Text.maxDigits ≤ i.natAbs := by
    rw [Nat.pow_eq, ← Nat.not_le, ← Nat.not_lt (a := i.natAbs), not_iff_not, Text.ofNat,
      Nat.length_toDigits_le_iff (b := 10) (k := Text.maxDigits) (by decide) (by decide)]
  unfold Text.ofInt?
  split
  · exact iff_of_true rfl (.int (hlength.mp ‹_›))
  · refine iff_of_false nofun fun h => ?_
    cases h with
    | int hlong => exact absurd (hlength.mpr hlong) ‹_›

theorem quotedItems?_eq_none_iff (xs : List Value) : quotedItems? xs = none ↔ ∃ v ∈ xs, v.quoted? = none := by
  induction xs with
  | nil => simp [quotedItems?]
  | cons v xs ih =>
    rw [List.exists_mem_cons_iff, ← ih, quotedItems?]
    cases v.quoted? <;> cases quotedItems? xs <;> simp

theorem quotedFields?_eq_none_iff (fs : Fields) : quotedFields? fs = none ↔ ∃ e ∈ fs, e.2.quoted? = none := by
  induction fs with
  | nil => simp [quotedFields?]
  | cons e fs ih =>
    rw [List.exists_mem_cons_iff, ← ih, quotedFields?]
    cases e.2.quoted? <;> cases quotedFields? fs <;> simp

theorem sizeOf_field_lt {fs : Fields} {e : Text × Value} (he : e ∈ fs) : sizeOf e.2 < 1 + sizeOf fs := by
  have hlt := List.sizeOf_lt_of_mem he
  have hsnd : sizeOf e.2 < sizeOf e := by
    cases e
    simp only [Prod.mk.sizeOf_spec]
    omega
  omega

/-- A value inside another one has no text exactly if it holds too long a number. -/
theorem quoted?_eq_none_iff : (v : Value) → (v.quoted? = none ↔ v.HoldsLong)
  | .int i => ofInt?_eq_none_iff i
  | .arr xs => by
    rw [quoted?, Option.map_eq_none_iff, quotedItems?_eq_none_iff]
    constructor
    · rintro ⟨v, hv, hnone⟩
      exact .item hv ((quoted?_eq_none_iff v).mp hnone)
    · rintro (_ | ⟨hv, h⟩)
      exact ⟨_, hv, (quoted?_eq_none_iff _).mpr h⟩
  | .obj fs => by
    rw [quoted?, Option.map_eq_none_iff, quotedFields?_eq_none_iff]
    constructor
    · rintro ⟨e, he, hnone⟩
      have hsize := sizeOf_field_lt he
      exact .field he ((quoted?_eq_none_iff e.2).mp hnone)
    · rintro (_ | _ | ⟨he, h⟩)
      have hsize := sizeOf_field_lt he
      exact ⟨_, he, (quoted?_eq_none_iff _).mpr h⟩
  | .null | .bool _ | .float _ | .str _ | .other _ _ => iff_of_false (by simp [quoted?]) nofun

/-- **A value has no text exactly if a number in it is too long.** -/
theorem shown?_eq_none_iff (v : Value) : v.shown? = none ↔ v.HoldsLong := by
  rw [← quoted?_eq_none_iff]
  cases v with
  | str s => simp [shown?, quoted?]
  | other shown quoted => simp [shown?, quoted?]
  | _ => rfl

instance : DecidablePred HoldsLong := fun v => decidable_of_iff _ (shown?_eq_none_iff v)

end Value

namespace Settings

open Text

/-! ### The settings one by one -/

inductive Kind where
  | null
  | bool
  | int
  | float
  | text
  | array
  | table
  | other
deriving DecidableEq, Repr

def kindOf : Value → Kind
  | .null => .null
  | .bool _ => .bool
  | .int _ => .int
  | .float _ => .float
  | .str _ => .text
  | .arr _ => .array
  | .obj _ => .table
  | .other _ _ => .other

/-- What a file or the environment can say something about. -/
inductive Setting where
  | flavor
  | headingLevel
  | extension
  | outputDir
  | excludes
  | logLevel
  | structuredLogging
deriving DecidableEq, Repr

namespace Setting

def place : Setting → String × String
  | .flavor => ("render", "flavor")
  | .headingLevel => ("render", "heading_level")
  | .extension => ("generate", "extension")
  | .outputDir => ("generate", "output_dir")
  | .excludes => ("generate", "excludes")
  | .logLevel => ("logging", "level")
  | .structuredLogging => ("logging", "structured")

def envName : Setting → String
  | .flavor => "DOC2MD_FLAVOR"
  | .headingLevel => "DOC2MD_HEADING_LEVEL"
  | .extension => "DOC2MD_EXTENSION"
  | .outputDir => "DOC2MD_OUTPUT_DIR"
  | .excludes => "DOC2MD_EXCLUDE"
  | .logLevel => "DOC2MD_LOG_LEVEL"
  | .structuredLogging => "DOC2MD_STRUCTURED_LOGGING"

def inDocument (k : Setting) (data : Fields) : Option Value := valueAt? data k.place.1 k.place.2

/-- The value of a setting in the environment, where an empty variable counts as unset. -/
def inEnv (k : Setting) (env : Env) : Option Value := (env.get? k.envName).map .str

/-- Values that names can be taken from: texts, tables, and arrays of values that have a text. -/
def ListsNames : Value → Prop
  | .str _ | .obj _ => True
  | .arr xs => ∀ v ∈ xs, ¬ v.HoldsLong
  | _ => False

instance : DecidablePred ListsNames
  | .str _ | .obj _ => inferInstanceAs (Decidable True)
  | .arr xs => inferInstanceAs (Decidable (∀ v ∈ xs, ¬ v.HoldsLong))
  | .null | .bool _ | .int _ | .float _ | .other _ _ => inferInstanceAs (Decidable False)

/-- The values that are valid for a setting. -/
def Accepts : Setting → Value → Prop
  | .flavor, v => ∃ shown ∈ v.shown?, lower (strip shown) ∈ Flavor.named.map (·.name)
  | .headingLevel, v => ∃ n ∈ whole? v, 1 ≤ n ∧ n ≤ 6
  | .extension, v => ∃ shown ∈ v.shown?, Site.normalizeExtension shown ≠ []
  | .outputDir, v => kindOf v = .text
  | .excludes, v => ListsNames v
  | .logLevel, v => ∃ shown ∈ v.shown?, upper (strip shown) ∈ logLevels
  | .structuredLogging, v => ¬ v.HoldsLong

instance : (k : Setting) → (v : Value) → Decidable (k.Accepts v)
  | .flavor, v =>
    inferInstanceAs (Decidable (∃ shown ∈ v.shown?, lower (strip shown) ∈ Flavor.named.map (·.name)))
  | .headingLevel, v => inferInstanceAs (Decidable (∃ n ∈ whole? v, 1 ≤ n ∧ n ≤ 6))
  | .extension, v => inferInstanceAs (Decidable (∃ shown ∈ v.shown?, Site.normalizeExtension shown ≠ []))
  | .outputDir, v => inferInstanceAs (Decidable (kindOf v = .text))
  | .excludes, v => inferInstanceAs (Decidable (ListsNames v))
  | .logLevel, v => inferInstanceAs (Decidable (∃ shown ∈ v.shown?, upper (strip shown) ∈ logLevels))
  | .structuredLogging, v => inferInstanceAs (Decidable (¬ v.HoldsLong))

def isInfinity : Value → Bool
  | .float f => f.isInf
  | _ => false

/-- The values that end the loading. -/
def Aborts : Setting → Value → Prop
  | .headingLevel, v => isInfinity v = true
  | .outputDir, v => kindOf v ≠ .text
  | .excludes, v => ¬ ListsNames v
  | .flavor, v | .extension, v | .logLevel, v | .structuredLogging, v => v.HoldsLong

instance : (k : Setting) → (v : Value) → Decidable (k.Aborts v)
  | .headingLevel, v => inferInstanceAs (Decidable (isInfinity v = true))
  | .outputDir, v => inferInstanceAs (Decidable (kindOf v ≠ .text))
  | .excludes, v => inferInstanceAs (Decidable (¬ ListsNames v))
  | .flavor, v | .extension, v | .logLevel, v | .structuredLogging, v =>
    inferInstanceAs (Decidable v.HoldsLong)

def SameIn : Setting → Settings → Settings → Prop
  | .flavor, a, b => a.flavor = b.flavor
  | .headingLevel, a, b => a.headingLevel = b.headingLevel
  | .extension, a, b => a.extension = b.extension
  | .outputDir, a, b => a.outputDir = b.outputDir
  | .excludes, a, b => a.excludes = b.excludes
  | .logLevel, a, b => a.logLevel = b.logLevel
  | .structuredLogging, a, b => a.structuredLogging = b.structuredLogging

theorem SameIn.trans {k : Setting} {a b c : Settings} (h : k.SameIn a b) (h' : k.SameIn b c) :
    k.SameIn a c := by
  cases k with
  | _ => exact Eq.trans h h'

/-! ### Values that are not accepted -/

section Rejected

variable {v : Value}

theorem map_filter_eq_none {α : Type} {o : Option Text} {f : Text → α} {p : α → Bool}
    (h : ¬ ∃ shown ∈ o, p (f shown) = true) : (o.map f).filter p = none := by
  rw [Option.filter_eq_none_iff]
  rintro _ ha hp
  obtain ⟨shown, hshown, rfl⟩ := Option.map_eq_some_iff.mp ha
  exact h ⟨shown, hshown, hp⟩

theorem flavor?_eq_none (h : ¬ Accepts .flavor v) : flavor? v = none :=
  map_filter_eq_none fun ⟨shown, hshown, hkey⟩ => h ⟨shown, hshown, of_decide_eq_true hkey⟩

theorem headingLevel?_eq_none (h : ¬ Accepts .headingLevel v) : headingLevel? v = none := by
  rw [headingLevel?, Option.filter_eq_none_iff]
  intro n hn hrange
  exact h ⟨n, hn, of_decide_eq_true hrange⟩

theorem extension?_eq_none (h : ¬ Accepts .extension v) : extension? v = none :=
  map_filter_eq_none fun ⟨shown, hshown, hkey⟩ => h ⟨shown, hshown, of_decide_eq_true hkey⟩

theorem path?_eq_none_iff : path? v = none ↔ ¬ Accepts .outputDir v := by
  cases v with
  | _ => simp [path?, Accepts, kindOf]

/-- The texts of some values can be listed unless one of them holds too long a number. -/
theorem mapM_shown?_eq_none_iff (xs : List Value) :
    xs.mapM Value.shown? = none ↔ ∃ v ∈ xs, v.HoldsLong := by
  induction xs with
  | nil => simp
  | cons v xs ih =>
    rw [List.exists_mem_cons_iff, ← v.shown?_eq_none_iff, ← ih, List.mapM_cons]
    cases v.shown? <;> cases xs.mapM Value.shown? <;> simp

theorem names?_eq_none_iff : names? v = none ↔ ¬ Accepts .excludes v := by
  cases v with
  | arr xs => simp [names?, items?, Accepts, ListsNames, mapM_shown?_eq_none_iff]
  | _ => simp [names?, items?, Accepts, ListsNames]

theorem logLevel?_eq_none (h : ¬ Accepts .logLevel v) : logLevel? v = none :=
  map_filter_eq_none fun ⟨shown, hshown, hkey⟩ => h ⟨shown, hshown, of_decide_eq_true hkey⟩

theorem bool?_eq_none (h : ¬ Accepts .structuredLogging v) : bool? v = none := by
  have hnone : v.shown? = none := v.shown?_eq_none_iff.mpr (not_not.mp h)
  cases v with
  | bool b => simp [Value.shown?, Value.quoted?] at hnone
  | _ => simp only [bool?, hnone, Option.map_none]

end Rejected

theorem bind_getD_eq {α β : Type} {o : Option α} {valid : α → Option β} {d : β}
    (h : ∀ v ∈ o, valid v = none) : (o.bind valid).getD d = d := by
  cases o with
  | none => rfl
  | some v => rw [Option.bind_some, h v rfl, Option.getD_none]

/-- A document whose value for a setting is not accepted leaves the setting as it was. -/
theorem sameIn_over_file {k : Setting} {data : Fields} (h : ∀ v ∈ k.inDocument data, ¬ k.Accepts v)
    (s : Settings) : k.SameIn ((fileLayer data).over s) s := by
  cases k with
  | flavor => exact bind_getD_eq fun v hv => flavor?_eq_none (h v hv)
  | headingLevel => exact bind_getD_eq fun v hv => headingLevel?_eq_none (h v hv)
  | extension => exact bind_getD_eq fun v hv => extension?_eq_none (h v hv)
  | outputDir => exact bind_getD_eq fun v hv => path?_eq_none_iff.mpr (h v hv)
  | excludes => exact bind_getD_eq fun v hv => names?_eq_none_iff.mpr (h v hv)
  | logLevel => exact bind_getD_eq fun v hv => logLevel?_eq_none (h v hv)
  | structuredLogging => exact bind_getD_eq fun v hv => bool?_eq_none (h v hv)

/-- An environment whose value for a setting is not accepted leaves the setting as it was. -/
theorem sameIn_over_env {k : Setting} {env : Env} (h : ∀ v ∈ k.inEnv env, ¬ k.Accepts v) (s : Settings) :
    k.SameIn ((envLayer env).over s) s := by
  have hstr : ∀ t ∈ env.get? k.envName, ¬ k.Accepts (.str t) :=
    fun t ht => h _ (Option.mem_map_of_mem _ ht)
  rw [envLayer_eq]
  cases k with
  | flavor => exact bind_getD_eq fun t ht => flavor?_eq_none (hstr t ht)
  | headingLevel => exact bind_getD_eq fun t ht => headingLevel?_eq_none (hstr t ht)
  | extension => exact bind_getD_eq fun t ht => extension?_eq_none (hstr t ht)
  | outputDir => exact bind_getD_eq fun t ht => path?_eq_none_iff.mpr (hstr t ht)
  | excludes => exact bind_getD_eq fun t ht => names?_eq_none_iff.mpr (hstr t ht)
  | logLevel => exact bind_getD_eq fun t ht => logLevel?_eq_none (hstr t ht)
  | structuredLogging => exact bind_getD_eq fun t ht => bool?_eq_none (hstr t ht)

/-! ### Values that end the loading -/

/-- The heading levels that end the loading are the infinite numbers. -/
theorem isInfinite_iff {v : Value} : IsInfinite v ↔ Aborts .headingLevel v := by
  cases v with
  | float f =>
    simp only [IsInfinite, Aborts, isInfinity, Dyadic.ofFloat?_eq_none_iff]
    constructor
    · rintro ⟨hinf | hnan, hnot⟩
      · exact hinf
      · exact absurd (hnan.symm.trans hnot) (by simp)
    · exact fun hinf => ⟨Or.inl hinf, isNaN_of_isInf hinf⟩
  | _ => simp [IsInfinite, Aborts, isInfinity]

/-- Whatever ends the loading is not valid. -/
theorem Aborts.not_accepts {k : Setting} {v : Value} (h : k.Aborts v) : ¬ k.Accepts v := by
  cases k with
  | headingLevel =>
    rintro ⟨n, hn, -⟩
    cases v with
    | float f =>
      have hnone := (Dyadic.ofFloat?_eq_none_iff f).mpr (Or.inl h)
      simp [whole?, hnone] at hn
    | _ => cases h
  | outputDir => exact h
  | excludes => exact h
  | structuredLogging => exact not_not.mpr h
  | _ =>
    rintro ⟨shown, hshown, -⟩
    rw [v.shown?_eq_none_iff.mpr h] at hshown
    cases hshown

end Setting

/-- The parts of a document that settings are looked up in are tables. -/
def Tabular (data : Fields) : Prop := ∀ e ∈ tableKeys, ∀ t ∈ data.get? e.1.toList, kindOf t = .table

instance (data : Fields) : Decidable (Tabular data) :=
  inferInstanceAs (Decidable (∀ e ∈ tableKeys, ∀ t ∈ data.get? e.1.toList, kindOf t = .table))

theorem isSome_shown?_iff (v : Value) : v.shown?.isSome = true ↔ ¬ v.HoldsLong := by
  rw [← v.shown?_eq_none_iff, Option.isSome_iff_ne_none]

/-- In tables, the values that end the loading are all that does. -/
theorem loadable_iff {data : Fields} (htables : Tabular data) :
    Loadable data ↔ ∀ k : Setting, ∀ v ∈ k.inDocument data, ¬ k.Aborts v := by
  have htext : ∀ {v : Value}, v.shown?.isSome = true → ¬ v.HoldsLong := fun {v} => (isSome_shown?_iff v).mp
  constructor
  · intro h k v hv habort
    obtain ⟨hflavor, hextension, hlevel, hstructured⟩ := forall_mem_textKeys.mp h.texts
    cases k with
    | flavor => exact htext (hflavor v hv) habort
    | headingLevel => exact h.headingLevel v hv (Setting.isInfinite_iff.mpr habort)
    | extension => exact htext (hextension v hv) habort
    | outputDir =>
      have hsome := h.outputDir v hv
      rw [Setting.path?_eq_none_iff.mpr habort] at hsome
      cases hsome
    | excludes =>
      have hsome := h.excludes v hv
      rw [Setting.names?_eq_none_iff.mpr habort] at hsome
      cases hsome
    | logLevel => exact htext (hlevel v hv) habort
    | structuredLogging => exact htext (hstructured v hv) habort
  · intro h
    have htexts : ∀ e ∈ textKeys, ∀ v ∈ valueAt? data e.1 e.2, ¬ v.HoldsLong :=
      forall_mem_textKeys.mpr ⟨h .flavor, h .extension, h .logLevel, h .structuredLogging⟩
    refine ⟨fun e he t ht key hkey => ?_, fun e he v hv => (isSome_shown?_iff v).mpr (htexts e he v hv),
      fun v hv hinf => ?_, fun v hv => ?_, fun v hv => ?_⟩
    · have htable := htables e he t ht
      cases t with
      | obj fields => exact trivial
      | _ => cases htable
    · exact h .headingLevel v hv (Setting.isInfinite_iff.mp hinf)
    · exact Option.isSome_iff_ne_none.mpr fun hnone =>
        h .outputDir v hv (Setting.path?_eq_none_iff.mp hnone)
    · exact Option.isSome_iff_ne_none.mpr fun hnone =>
        h .excludes v hv (Setting.names?_eq_none_iff.mp hnone)

/-- **A value that is not valid leaves its setting alone, unless it ends the loading.** In a document whose
parts are tables, loading returns settings if and only if the heading level is not infinite, the output
directory is a text, the excluded names are a text, a table or an array, and no number is too long in what is
excluded and in the values of the other settings; nothing in the environment matters for this, and no valid
value ends the loading. In the settings that are returned, a value of the environment that is not valid leaves
what the document says, and a value of the document that is not valid either leaves the default. -/
theorem load_invalid_values {reader : Toml.Reader} {tree : FileTree} {cwd : Path} {env : Env}
    {asked : Option Text} {file : Path} {data : Fields}
    (hfile : fileToRead tree cwd env asked = .ok (some file))
    (hdata : document? reader tree cwd file = some data) (htables : Tabular data) (events : List Event) :
    ((∃ s events', Yields (load reader tree cwd env asked) events s events') ↔
        ∀ k : Setting, ∀ v ∈ k.inDocument data, ¬ k.Aborts v) ∧
      (∀ (k : Setting) v, k.Aborts v → ¬ k.Accepts v) ∧
      ∀ s events', Yields (load reader tree cwd env asked) events s events' →
        ∀ k : Setting, (∀ v ∈ k.inEnv env, ¬ k.Accepts v) →
          k.SameIn s ((fileLayer data).over {}) ∧
            ((∀ v ∈ k.inDocument data, ¬ k.Accepts v) → k.SameIn s {}) := by
  have hasked : file? tree cwd env asked = some file := by rw [file?, hfile]; rfl
  have hsettles : Settles (load reader tree cwd env asked) (Loadable data)
      ((envLayer env).over ((fileLayer data).over { configFile := some file })) := by
    have hload := settles_load reader tree cwd env asked
    simp only [hasked, hdata, Option.bind_some, Option.getD_some] at hload
    exact hload.congr (by simp [hfile, not_unreadable_of_document hdata])
  refine ⟨?_, fun k v => Setting.Aborts.not_accepts, fun s events' hy k henv => ?_⟩
  · rw [← loadable_iff htables]
    constructor
    · rintro ⟨s, events', hy⟩
      exact (hsettles.of_yields hy).1
    · exact fun h => ⟨_, (hsettles events).1 h⟩
  · obtain ⟨-, rfl⟩ := hsettles.of_yields hy
    -- The file that was read is no setting, so the layers may as well be laid over the defaults.
    have hover : k.SameIn ((fileLayer data).over { configFile := some file }) ((fileLayer data).over {}) := by
      cases k with
      | _ => rfl
    have hbelow := (Setting.sameIn_over_env henv _).trans hover
    exact ⟨hbelow, fun hdocument => hbelow.trans (Setting.sameIn_over_file hdocument _)⟩

def infiniteLevel : Text := "[render]\nflavor = 7\nheading_level = inf\n".toList

def wrongKinds : Text := "[render]\nflavor = 7\nheading_level = [2]\n[logging]\nlevel = nan\n".toList

/-- The document of the working directory. -/
def documentOf (text : Text) : Option Fields :=
  document? Toml.parse (settingsDir (Utf8.encode text)) .top ⟨[], ["doc2md.toml".toList]⟩

def loadFrom (reader : Toml.Reader) (text : Text) : Load Settings :=
  load reader (settingsDir (Utf8.encode text)) .top flavorEnv none

/-- A reader that finds a flavor of 4301 digits in every text. -/
def longReader : Toml.Reader := fun _ =>
  .ok [("render".toList, .obj [("flavor".toList, .int (Nat.pow 10 maxDigits))])]

/-- An infinite heading level ends the loading, and so does a number that is too long. Values of wrong kinds in
the document leave the defaults, and so does a heading level of the environment that is too large. -/
theorem load_invalid_values_samples :
    (¬ ∃ s events, Yields (loadFrom Toml.parse infiniteLevel) [] s events) ∧
      (¬ ∃ s events, Yields (loadFrom longReader []) [] s events) ∧
      ∃ s events, Yields (loadFrom Toml.parse wrongKinds) [] s events ∧
        s.headingLevel = 1 ∧ s.logLevel = "INFO".toList := by
  have hfile : ∀ text, fileToRead (settingsDir (Utf8.encode text)) .top flavorEnv none =
      .ok (some ⟨[], ["doc2md.toml".toList]⟩) := fun _ => rfl
  have hinfinite : (documentOf infiniteLevel).any (fun data => decide (Tabular data ∧
      ∃ v ∈ Setting.inDocument .headingLevel data, Setting.Aborts .headingLevel v)) = true := by
    decide +kernel
  have hwrong : (documentOf wrongKinds).any (fun data => decide (Tabular data ∧
      (∀ k ∈ [Setting.flavor, .headingLevel, .extension, .outputDir, .excludes, .logLevel, .structuredLogging],
        ∀ v ∈ k.inDocument data, ¬ k.Aborts v) ∧
      ∀ k ∈ [Setting.headingLevel, .logLevel], ∀ v ∈ k.inDocument data, ¬ k.Accepts v)) = true := by
    decide +kernel
  refine ⟨?_, ?_, ?_⟩
  · obtain ⟨data, hdata, htest⟩ := (Option.any_eq_true _ _).mp hinfinite
    obtain ⟨htables, v, hv, habort⟩ := of_decide_eq_true htest
    obtain ⟨hreturns, -⟩ := load_invalid_values (hfile _) hdata htables []
    exact fun h => hreturns.mp h .headingLevel v hv habort
  · have hdata : document? longReader (settingsDir (Utf8.encode [])) .top ⟨[], ["doc2md.toml".toList]⟩ =
        some [("render".toList, .obj [("flavor".toList, .int (Nat.pow 10 maxDigits))])] := rfl
    obtain ⟨hreturns, -⟩ := load_invalid_values (hfile _) hdata (by decide) []
    have hlong : Value.HoldsLong (.int (Nat.pow 10 maxDigits)) := .int (Nat.le_of_eq (Int.natAbs_natCast _).symm)
    exact fun h => hreturns.mp h .flavor _ rfl hlong
  · obtain ⟨data, hdata, htest⟩ := (Option.any_eq_true _ _).mp hwrong
    obtain ⟨htables, hgoes, hbad⟩ := of_decide_eq_true htest
    obtain ⟨hreturns, -, hdefaults⟩ := load_invalid_values (hfile _) hdata htables []
    have hloads : ∀ k : Setting, ∀ v ∈ k.inDocument data, ¬ k.Aborts v := by
      intro k
      refine hgoes k ?_
      cases k with
      | _ => simp
    obtain ⟨s, events, hy⟩ := hreturns.mpr hloads
    have hlevel := hdefaults s events hy .headingLevel (by decide +kernel)
    have hlog := hdefaults s events hy .logLevel (by decide +kernel)
    exact ⟨s, events, hy, hlevel.2 (hbad .headingLevel (by simp)), hlog.2 (hbad .logLevel (by simp))⟩

end Settings

end DocMark
