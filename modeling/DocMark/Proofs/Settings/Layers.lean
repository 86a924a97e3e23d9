import DocMark.Proofs.Runs
import DocMark.Settings.Load

/-!
Settings are layered field by field.

A layer has at most one value for each setting: what is given for it, if that is valid (`Layer`). Laid over
settings, a layer replaces what it has a value for and leaves the rest (`Layer.over`). Loading lays the file
over the defaults and the environment over both. What it yields does not depend on what was logged before,
so every part of it is described by what it needs to succeed and what it then yields (`Settles`).

The environment never ends the loading (`settles_ofEnv`). A file does where it holds a value that cannot be
looked at as its setting needs (`Loadable`), or where its document cannot be had (`Unreadable`). With these
two, `load_layered` is the whole of loading, whatever the reader of documents.
-/

namespace DocMark.Settings

open Text

/-! ### Valid values -/

/-- The known flavor that a value names, whatever its case and the white space around it. -/
def flavor? (v : Value) : Option Text :=
  (v.shown?.map fun shown => lower (strip shown)).filter fun key => key ∈ Flavor.named.map (·.name)

/-- The whole number that a value stands for. -/
def whole? : Value → Option Int
  | .int i => some i
  | .bool b => some (if b then 1 else 0)
  | .float f => (Dyadic.ofFloat? f).map fun d => if d.negative then -(d.whole : Int) else d.whole
  | .str s => readInt? s
  | _ => none

def headingLevel? (v : Value) : Option Int := (whole? v).filter fun n => 1 ≤ n ∧ n ≤ 6

def logLevel? (v : Value) : Option Text :=
  (v.shown?.map fun shown => upper (strip shown)).filter fun level => level ∈ logLevels

def extension? (v : Value) : Option Text :=
  (v.shown?.map Site.normalizeExtension).filter fun e => e ≠ []

def path? : Value → Option Path
  | .str s => some (Path.ofText s)
  | _ => none

/-- The items of a list: of a text, the parts between commas; of an array, the texts of its items; of a
table, its keys. -/
def items? : Value → Option (List Text)
  | .str s => some (splitAt ',' s)
  | .arr xs => xs.mapM Value.shown?
  | .obj fs => some (fs.map (·.1))
  | _ => none

def names? (v : Value) : Option (List Text) :=
  (items? v).map fun items => (items.map strip).filter (· ≠ [])

/-- A value stands for true or false, and a few texts for true. -/
def bool? : Value → Option Bool
  | .bool b => some b
  | v => v.shown?.map fun shown =>
    ["true", "1", "yes", "on"].any fun w => w.toList = lower (strip shown)

/-! ### Layers -/

/-- What a layer says: the valid value of each setting, if it has one. -/
structure Layer where
  flavor : Option Text
  headingLevel : Option Int
  extension : Option Text
  outputDir : Option Path
  excludes : Option (List Text)
  logLevel : Option Text
  structuredLogging : Option Bool

def Layer.over (l : Layer) (s : Settings) : Settings where
  flavor := l.flavor.getD s.flavor
  headingLevel := l.headingLevel.getD s.headingLevel
  extension := l.extension.getD s.extension
  outputDir := l.outputDir.getD s.outputDir
  excludes := l.excludes.getD s.excludes
  logLevel := l.logLevel.getD s.logLevel
  structuredLogging := l.structuredLogging.getD s.structuredLogging
  configFile := s.configFile

/-- The value of a key in a table. What is no table has no keys. -/
def field? (table : Value) (key : String) : Option Value :=
  match table with
  | .obj fs => Fields.get? fs key.toList
  | _ => none

def valueAt? (data : Fields) (table key : String) : Option Value :=
  (data.get? table.toList).bind (field? · key)

def fileLayer (data : Fields) : Layer where
  flavor := (valueAt? data "render" "flavor").bind flavor?
  headingLevel := (valueAt? data "render" "heading_level").bind headingLevel?
  extension := (valueAt? data "generate" "extension").bind extension?
  outputDir := (valueAt? data "generate" "output_dir").bind path?
  excludes := (valueAt? data "generate" "excludes").bind names?
  logLevel := (valueAt? data "logging" "level").bind logLevel?
  structuredLogging := (valueAt? data "logging" "structured").bind bool?

/-- What an environment says. An empty variable is not valid for the settings that can be invalid, and
counts as unset for the others. -/
def envLayer (env : Env) : Layer where
  flavor := (env.lookup "DOC2MD_FLAVOR".toList).bind (flavor? <| .str ·)
  headingLevel := (env.lookup "DOC2MD_HEADING_LEVEL".toList).bind (headingLevel? <| .str ·)
  extension := (env.lookup "DOC2MD_EXTENSION".toList).bind (extension? <| .str ·)
  outputDir := (env.get? "DOC2MD_OUTPUT_DIR").bind (path? <| .str ·)
  excludes := (env.get? "DOC2MD_EXCLUDE").bind (names? <| .str ·)
  logLevel := (env.lookup "DOC2MD_LOG_LEVEL".toList).bind (logLevel? <| .str ·)
  structuredLogging := (env.get? "DOC2MD_STRUCTURED_LOGGING").bind (bool? <| .str ·)

/-! ### Single settings -/

/-- A heading level that ends the loading. -/
def IsInfinite : Value → Prop
  | .float f => Dyadic.ofFloat? f = none ∧ f.isNaN = false
  | _ => False

/-- A key can be looked up. In a text or an array the key can be found but has no value. -/
def Opens (table : Value) (key : String) : Prop :=
  match table with
  | .obj _ => True
  | .str s => holds key.toList s = false
  | .arr xs => .str key.toList ∉ xs
  | _ => False

/-- A setting settles as the reading of its value does. One without a value keeps its default. -/
theorem settles_given {α β : Type} {o : Option α} {d : β} {read : α → β → Load β} {p : α → Prop}
    {valid : α → Option β} (h : ∀ v, Settles (read v d) (p v) ((valid v).getD d)) :
    Settles (given o d read) (∀ v ∈ o, p v) ((o.bind valid).getD d) := by
  cases o with
  | none => exact (settles_pure d).congr (by simp)
  | some v => exact (h v).congr (by simp)

/-- A value that is not valid is reported and changes nothing. -/
theorem settles_fallback {α : Type} (level : Level) (message : Text) (d : α) :
    Settles (do report level message; return d) True d :=
  (settles_modify _).then (settles_pure d)

/-- What is done with the text of a value needs that the value has one. -/
theorem settles_shown {α : Type} (v : Value) {f : Text → Load α} {a : α}
    (hf : ∀ shown, v.shown? = some shown → Settles (f shown) True a) :
    Settles (do f (← orTooManyDigits v.shown?)) (v.shown?.isSome = true) a := by
  cases hv : v.shown? with
  | none =>
    refine Settles.congr (p := False) (fun es => ⟨False.elim, fun _ => ⟨.tooManyDigits, es, ?_⟩⟩) (by simp)
    exact fails_bind_iff.mpr (Or.inl (fails_throw_iff.mpr ⟨rfl, rfl⟩))
  | some shown => exact ((settles_pure shown).then (hf shown hv)).congr (by simp)

theorem settles_flavorOf (v : Value) (d : Text) :
    Settles (flavorOf v d) (v.shown?.isSome = true) ((flavor? v).getD d) := by
  refine settles_shown v fun shown hshown => ?_
  have hknown : (Flavor.named.any fun f => f.name = Flavor.lookupKey shown) = true ↔
      lower (strip shown) ∈ Flavor.named.map (·.name) := by
    rw [List.any_eq_true, List.mem_map]
    exact exists_congr fun f => and_congr_right fun _ => decide_eq_true_iff
  unfold flavor?
  rw [hshown, Option.map_some]
  by_cases hkey : lower (strip shown) ∈ Flavor.named.map (·.name)
  · rw [if_pos (hknown.mpr hkey), Option.filter_some_pos (by simpa using hkey)]
    exact settles_pure _
  · rw [if_neg (mt hknown.mp hkey), Option.filter_some_neg (by simpa using hkey)]
    exact settles_fallback _ _ d

theorem settles_wholeOf (v : Value) : Settles (wholeOf v) (¬ IsInfinite v) (whole? v) := by
  cases v with
  | float f =>
    simp only [wholeOf, whole?, IsInfinite]
    cases Dyadic.ofFloat? f with
    | some d => exact (settles_pure _).congr (by simp)
    | none =>
      cases f.isNaN with
      | true => exact (settles_pure _).congr (by simp)
      | false => exact (settles_throw _ _).congr (by simp)
  | _ => exact (settles_pure _).congr (by simp [IsInfinite])

/-- A heading level that is not infinite leaves the level it stands for, or the default. -/
theorem settles_headingLevelOf (v : Value) (d : Int) :
    Settles (headingLevelOf v d) (¬ IsInfinite v) ((headingLevel? v).getD d) := by
  unfold headingLevelOf headingLevel?
  refine ((settles_wholeOf v).bind ?_).congr (iff_of_eq (and_true _))
  -- What is not valid is reported only if it has a text, and changes nothing in either case.
  cases whole? v with
  | none =>
    cases v.shown? with
    | none => exact settles_pure d
    | some shown => exact settles_fallback _ _ d
  | some n =>
    by_cases hn : 1 ≤ n ∧ n ≤ 6
    · rw [Option.filter_some_pos (by simpa using hn)]
      simp only [if_pos hn]
      exact settles_pure n
    · rw [Option.filter_some_neg (by simpa using hn)]
      simp only [if_neg hn]
      cases v.shown? with
      | none => exact settles_pure d
      | some shown => exact settles_fallback _ _ d

theorem settles_logLevelOf (v : Value) (d : Text) :
    Settles (logLevelOf v d) (v.shown?.isSome = true) ((logLevel? v).getD d) := by
  refine settles_shown v fun shown hshown => ?_
  unfold logLevel?
  rw [hshown, Option.map_some]
  by_cases hlevel : upper (strip shown) ∈ logLevels
  · rw [if_pos (List.contains_iff_mem.mpr hlevel), Option.filter_some_pos (by simpa using hlevel)]
    exact settles_pure _
  · rw [if_neg (mt List.contains_iff_mem.mp hlevel), Option.filter_some_neg (by simpa using hlevel)]
    exact settles_fallback _ _ d

theorem settles_extensionOf (v : Value) (d : Text) :
    Settles (do return extensionOf (← orTooManyDigits v.shown?) d : Load Text) (v.shown?.isSome = true)
      ((extension? v).getD d) := by
  refine settles_shown v fun shown hshown => ?_
  have heq : extensionOf shown d = (extension? v).getD d := by
    unfold extensionOf extension?
    rw [hshown, Option.map_some]
    cases Site.normalizeExtension shown with
    | nil => rfl
    | cons c r => rfl
  rw [heq]
  exact settles_pure _

theorem settles_boolOf (v : Value) (d : Bool) :
    Settles (boolOf v) (v.shown?.isSome = true) ((bool? v).getD d) := by
  cases v with
  | bool b => exact (settles_pure b).congr (iff_of_true trivial rfl)
  | _ =>
    refine settles_shown _ fun shown hshown => ?_
    simp only [bool?, hshown, Option.map_some, Option.getD_some]
    exact settles_pure _

/-- Excluded names settle to the names of the list, if there is one. -/
theorem settles_namesOf (v : Value) (d : List Text) :
    Settles (namesOf v) ((names? v).isSome = true) ((names? v).getD d) := by
  cases v with
  | str s => exact ((settles_pure _).then (settles_pure _)).congr (by simp [names?, items?])
  | arr xs =>
    simp only [namesOf, names?, items?]
    cases xs.mapM Value.shown? with
    | none => exact (settles_throw LoadError.tooManyDigits d).congr (by simp)
    | some items => exact ((settles_pure _).then (settles_pure _)).congr (by simp)
  | obj fs => exact ((settles_pure _).then (settles_pure _)).congr (by simp [names?, items?])
  | _ => exact (settles_throw LoadError.wrongType d).congr (by simp [names?, items?])

theorem settles_pathOf (v : Value) (d : Path) :
    Settles (pathOf v) ((path? v).isSome = true) ((path? v).getD d) := by
  cases v with
  | str s => exact (settles_pure _).congr (by simp [path?])
  | _ => exact (settles_throw _ _).congr (by simp [path?])

/-- A key settles to its value wherever it can be looked up. -/
theorem settles_lookup (table : Value) (key : String) :
    Settles (lookup table key) (Opens table key) (field? table key) := by
  cases table with
  | obj fs => exact settles_pure _
  | str s =>
    simp only [lookup, Opens]
    cases holds key.toList s with
    | true => exact (settles_throw _ _).congr (by simp)
    | false => exact (settles_pure _).congr (by simp)
  | arr xs =>
    simp only [lookup, Opens]
    split
    · rename_i hany
      obtain ⟨v, hv, hkey⟩ := List.any_eq_true.mp hany
      split at hkey
      · obtain rfl := of_decide_eq_true hkey
        exact (settles_throw _ _).congr (iff_of_false not_false fun hno => hno hv)
      · cases hkey
    · rename_i hnone
      refine (settles_pure _).congr (iff_of_true trivial fun hmem => hnone ?_)
      exact List.any_eq_true.mpr ⟨_, hmem, decide_eq_true rfl⟩
  | _ => exact settles_throw _ _

/-! ### Documents -/

/-- The keys that are looked up in each table. -/
def tableKeys : List (String × List String) :=
  [("render", ["flavor", "heading_level"]), ("generate", ["extension", "output_dir", "excludes"]),
    ("logging", ["level", "structured"])]

/-- The table and the key of each setting that the text of a value is asked for. -/
def textKeys : List (String × String) :=
  [("render", "flavor"), ("generate", "extension"), ("logging", "level"), ("logging", "structured")]

/-- A document does not end the loading: keys can be looked up in its tables, the values that are taken by
their texts have them, the heading level is not infinite, the output directory is a text, and the excluded
names are a list. -/
structure Loadable (data : Fields) : Prop where
  opens : ∀ e ∈ tableKeys, ∀ t ∈ data.get? e.1.toList, ∀ key ∈ e.2, Opens t key
  texts : ∀ e ∈ textKeys, ∀ v ∈ valueAt? data e.1 e.2, v.shown?.isSome = true
  headingLevel : ∀ v ∈ valueAt? data "render" "heading_level", ¬ IsInfinite v
  outputDir : ∀ v ∈ valueAt? data "generate" "output_dir", (path? v).isSome = true
  excludes : ∀ v ∈ valueAt? data "generate" "excludes", (names? v).isSome = true

theorem forall_mem_tableKeys {P : String × List String → Prop} :
    (∀ e ∈ tableKeys, P e) ↔ P ("render", ["flavor", "heading_level"]) ∧
      P ("generate", ["extension", "output_dir", "excludes"]) ∧ P ("logging", ["level", "structured"]) := by
  rw [tableKeys, List.forall_mem_cons, List.forall_mem_cons, List.forall_mem_singleton]

theorem forall_mem_textKeys {P : String × String → Prop} :
    (∀ e ∈ textKeys, P e) ↔ P ("render", "flavor") ∧ P ("generate", "extension") ∧ P ("logging", "level") ∧
      P ("logging", "structured") := by
  rw [textKeys, List.forall_mem_cons, List.forall_mem_cons, List.forall_mem_cons, List.forall_mem_singleton]

/-- A setting that is looked up in a table, and what is done with it. -/
theorem settles_lookup_given {α β : Type} {t : Value} {key : String} {d : α} {read : Value → α → Load α}
    {p : Value → Prop} {valid : Value → Option α} {f : α → Load β} {q : Prop} {b : β}
    (hread : ∀ v, Settles (read v d) (p v) ((valid v).getD d))
    (hf : Settles (f (((field? t key).bind valid).getD d)) q b) :
    Settles (do let a ← given (← lookup t key) d read; f a)
      (Opens t key ∧ (∀ v ∈ field? t key, p v) ∧ q) b :=
  (settles_lookup t key).bind ((settles_given hread).bind hf)

section Tables

variable (table : Option Value)

/-- The table on rendering settles to its two settings. -/
theorem settles_renderTable (flavor : Text) (level : Int) :
    Settles (given table (flavor, level) fun v d => renderTable v d.1 d.2)
      ((∀ t ∈ table, ∀ key ∈ ["flavor", "heading_level"], Opens t key) ∧
        (∀ v ∈ table.bind (field? · "flavor"), v.shown?.isSome = true) ∧
        ∀ v ∈ table.bind (field? · "heading_level"), ¬ IsInfinite v)
      (((table.bind (field? · "flavor")).bind flavor?).getD flavor,
        ((table.bind (field? · "heading_level")).bind headingLevel?).getD level) := by
  cases table with
  | none => exact (settles_pure _).congr (by simp)
  | some t =>
    refine Settles.congr (settles_lookup_given (settles_flavorOf · flavor)
      (settles_lookup_given (settles_headingLevelOf · level) (settles_pure _))) ?_
    simp [and_assoc, and_left_comm]

/-- The table on sites settles to its three settings. -/
theorem settles_generateTable (extension : Text) (outputDir : Path) (excludes : List Text) :
    Settles (given table (extension, outputDir, excludes) fun v d => generateTable v d.1 d.2.1 d.2.2)
      ((∀ t ∈ table, ∀ key ∈ ["extension", "output_dir", "excludes"], Opens t key) ∧
        (∀ v ∈ table.bind (field? · "extension"), v.shown?.isSome = true) ∧
        (∀ v ∈ table.bind (field? · "output_dir"), (path? v).isSome = true) ∧
        ∀ v ∈ table.bind (field? · "excludes"), (names? v).isSome = true)
      (((table.bind (field? · "extension")).bind extension?).getD extension,
        ((table.bind (field? · "output_dir")).bind path?).getD outputDir,
        ((table.bind (field? · "excludes")).bind names?).getD excludes) := by
  cases table with
  | none => exact (settles_pure _).congr (by simp)
  | some t =>
    refine Settles.congr (settles_lookup_given (settles_extensionOf · extension)
      (settles_lookup_given (settles_pathOf · outputDir)
        (settles_lookup_given (settles_namesOf · excludes) (settles_pure _)))) ?_
    simp [and_assoc, and_left_comm]

/-- The table on logging settles to its two settings. -/
theorem settles_loggingTable (level : Text) (structured : Bool) :
    Settles (given table (level, structured) fun v d => loggingTable v d.1 d.2)
      ((∀ t ∈ table, ∀ key ∈ ["level", "structured"], Opens t key) ∧
        (∀ v ∈ table.bind (field? · "level"), v.shown?.isSome = true) ∧
        ∀ v ∈ table.bind (field? · "structured"), v.shown?.isSome = true)
      (((table.bind (field? · "level")).bind logLevel?).getD level,
        ((table.bind (field? · "structured")).bind bool?).getD structured) := by
  cases table with
  | none => exact (settles_pure _).congr (by simp)
  | some t =>
    refine Settles.congr (settles_lookup_given (settles_logLevelOf · level)
      (settles_lookup_given (settles_boolOf · structured) (settles_pure _))) ?_
    simp [and_assoc, and_left_comm]

end Tables

/-- **A document is one layer.** -/
theorem settles_ofTables (s : Settings) (data : Fields) :
    Settles (ofTables s data) (Loadable data) ((fileLayer data).over s) := by
  refine Settles.congr ((settles_renderTable (data.get? "render".toList) _ _).bind
    ((settles_generateTable (data.get? "generate".toList) _ _ _).bind
      ((settles_loggingTable (data.get? "logging".toList) _ _).bind (settles_pure _)))) ?_
  constructor
  · rintro ⟨⟨hrender, hflavor, hlevel⟩, ⟨hgenerate, hextension, hdir, hnames⟩, ⟨hlogging, hlog, hbool⟩, -⟩
    exact ⟨forall_mem_tableKeys.mpr ⟨hrender, hgenerate, hlogging⟩,
      forall_mem_textKeys.mpr ⟨hflavor, hextension, hlog, hbool⟩, hlevel, hdir, hnames⟩
  · intro h
    obtain ⟨hrender, hgenerate, hlogging⟩ := forall_mem_tableKeys.mp h.opens
    obtain ⟨hflavor, hextension, hlog, hbool⟩ := forall_mem_textKeys.mp h.texts
    exact ⟨⟨hrender, hflavor, h.headingLevel⟩, ⟨hgenerate, hextension, h.outputDir, h.excludes⟩,
      ⟨hlogging, hlog, hbool⟩, trivial⟩

/-! ### The environment -/

theorem get?_bind {α : Type} (env : Env) (name : String) {valid : Text → Option α} (h : valid [] = none) :
    (env.get? name).bind valid = (env.lookup name.toList).bind valid := by
  unfold Env.get?
  split
  · rename_i hempty
    rw [hempty]
    exact h.symm
  · rfl

theorem envLayer_eq (env : Env) : envLayer env =
    { flavor := (env.get? "DOC2MD_FLAVOR").bind (flavor? <| .str ·)
      headingLevel := (env.get? "DOC2MD_HEADING_LEVEL").bind (headingLevel? <| .str ·)
      extension := (env.get? "DOC2MD_EXTENSION").bind (extension? <| .str ·)
      outputDir := (env.get? "DOC2MD_OUTPUT_DIR").bind (path? <| .str ·)
      excludes := (env.get? "DOC2MD_EXCLUDE").bind (names? <| .str ·)
      logLevel := (env.get? "DOC2MD_LOG_LEVEL").bind (logLevel? <| .str ·)
      structuredLogging := (env.get? "DOC2MD_STRUCTURED_LOGGING").bind (bool? <| .str ·) } := by
  rw [envLayer, get?_bind env "DOC2MD_FLAVOR" rfl, get?_bind env "DOC2MD_HEADING_LEVEL" rfl,
    get?_bind env "DOC2MD_EXTENSION" rfl, get?_bind env "DOC2MD_LOG_LEVEL" rfl]

/-- **The environment is one layer**, and nothing in it ends the loading. -/
theorem settles_ofEnv (env : Env) (s : Settings) : Settles (ofEnv env s) True ((envLayer env).over s) := by
  have hlevel : ∀ v : Text, Settles (headingLevelOf (.str v) s.headingLevel) True
      ((headingLevel? (.str v)).getD s.headingLevel) :=
    fun v => (settles_headingLevelOf (.str v) _).congr (by simp [IsInfinite])
  have hnames : ∀ v : Text, Settles (namesOf (.str v)) True ((names? (.str v)).getD s.excludes) :=
    fun v => (settles_namesOf (.str v) _).congr (by simp [names?, items?])
  rw [envLayer_eq]
  refine Settles.congr ((settles_given fun v => settles_flavorOf (.str v) s.flavor).bind
    ((settles_given hlevel).bind ((settles_given fun v => settles_extensionOf (.str v) s.extension).bind
      ((settles_given fun v => settles_pure (Path.ofText v)).bind ((settles_given hnames).bind
        ((settles_given fun v => settles_logLevelOf (.str v) s.logLevel).bind
          ((settles_given fun v => settles_boolOf (.str v) s.structuredLogging).bind
            (settles_pure _)))))))) ?_
  simp [Value.shown?]

/-! ### The file -/

section File

variable (reader : Toml.Reader) (tree : FileTree) (cwd p : Path)

/-- The document that a path leads to: a file that can be read and is text, and whose text is well formed. -/
def document? : Option Fields :=
  match tree.read p cwd with
  | .error _ => none
  | .ok content => (Utf8.decode? content).bind fun text => (reader text).toOption

/-- A path that ends the loading: it cannot be looked up, it leads to a file that is no text, or the reader
fails at that text otherwise than by finding it malformed. -/
def Unreadable : Prop :=
  (∃ e, tree.seen p cwd = .error e) ∨
    ∃ content, tree.read p cwd = .ok content ∧
      match Utf8.decode? content with
      | none => True
      | some text => ∃ kind message, reader text = .error (.fault kind message)

variable {tree cwd p} in
/-- What can be read is there. -/
theorem exists_seen_of_read {content : Bytes} (h : tree.read p cwd = .ok content) :
    ∃ node, tree.seen p cwd = .ok (some node) := by
  obtain ⟨node, hlook, -⟩ := exists_of_bind_eq_ok h
  exact ⟨node, by rw [FileTree.seen, hlook]⟩

variable {reader tree cwd p} in
/-- A path whose document can be had does not end the loading. -/
theorem not_unreadable_of_document {data : Fields} (h : document? reader tree cwd p = some data) :
    ¬ Unreadable reader tree cwd p := by
  unfold document? at h
  cases hread : tree.read p cwd with
  | error e => simp [hread] at h
  | ok content =>
    simp only [hread] at h
    obtain ⟨text, hdecode, htext⟩ := Option.bind_eq_some_iff.mp h
    obtain ⟨node, hseen⟩ := exists_seen_of_read hread
    cases hreader : reader text with
    | error e => simp [hreader, Except.toOption] at htext
    | ok data => simp [Unreadable, hseen, hread, hdecode, hreader]

/-- **A file is one layer**, and one that is missing or malformed is an empty one. -/
theorem settles_ofFile :
    Settles (ofFile reader tree cwd p {})
      (¬ Unreadable reader tree cwd p ∧ ∀ data ∈ document? reader tree cwd p, Loadable data)
      ((fileLayer ((document? reader tree cwd p).getD [])).over
        { configFile := (document? reader tree cwd p).bind fun _ => some p }) := by
  unfold ofFile
  cases hread : tree.read p cwd with
  | error e =>
    have hnone : document? reader tree cwd p = none := by simp [document?, hread]
    rw [hnone]
    cases hseen : tree.seen p cwd with
    | error e => exact (settles_throw _ _).congr (by simp [Unreadable, hseen])
    | ok node =>
      cases node with
      | none => exact (settles_fallback _ _ _).congr (by simp [Unreadable, hseen, hread])
      | some node => exact (settles_fallback _ _ _).congr (by simp [Unreadable, hseen, hread])
  | ok content =>
    obtain ⟨node, hseen⟩ := exists_seen_of_read hread
    simp only [hseen, document?, hread, Unreadable]
    cases hdecode : Utf8.decode? content with
    | none => exact (settles_throw _ _).congr (by simp [hdecode])
    | some text =>
      simp only [Option.bind_some]
      cases hreader : reader text with
      | ok data => exact (settles_ofTables _ data).congr (by simp [hdecode, hreader, Except.toOption])
      | error problem =>
        cases problem with
        | malformed reason => exact (settles_fallback _ _ _).congr (by simp [hdecode, hreader, Except.toOption])
        | fault kind message => exact (settles_throw _ _).congr (by simp [hdecode, hreader])

variable (env : Env) (asked : Option Text)

/-- The settings file, if there is one to read. -/
def file? : Option Path := ((fileToRead tree cwd env asked).toOption).join

/-- Loading settles to the environment over the document over the defaults. -/
theorem settles_load :
    let document := (file? tree cwd env asked).bind (document? reader tree cwd)
    Settles (load reader tree cwd env asked)
      ((∀ e, fileToRead tree cwd env asked ≠ .error e) ∧
        (∀ p ∈ file? tree cwd env asked, ¬ Unreadable reader tree cwd p) ∧ ∀ data ∈ document, Loadable data)
      ((envLayer env).over ((fileLayer (document.getD [])).over
        { configFile := document.bind fun _ => file? tree cwd env asked })) := by
  intro document
  unfold load
  simp only [document, file?]
  cases fileToRead tree cwd env asked with
  | error e => exact (settles_throw _ _).congr (by simp)
  | ok file =>
    refine Settles.congr (Settles.bind (p := (∀ p ∈ file, ¬ Unreadable reader tree cwd p) ∧
      ∀ data ∈ file.bind (document? reader tree cwd), Loadable data) ?_ (settles_ofEnv env _))
      (by simp [Except.toOption])
    cases file with
    | none => exact (settles_pure _).congr (by simp)
    | some p => exact (settles_ofFile reader tree cwd p).congr (by simp)

end File

/-! ### Valid settings -/

/-- Settings that can be used: the flavor is known by its own name, the heading level is in its range, the
extension is not empty, and the log level is known. -/
structure IsValid (s : Settings) : Prop where
  flavor : ∃ f, Flavor.ofName s.flavor = .ok f ∧ f.name = s.flavor
  headingLevel : 1 ≤ s.headingLevel ∧ s.headingLevel ≤ 6
  extension : s.extension ≠ []
  logLevel : s.logLevel ∈ logLevels

theorem exists_ofName {name : Text} (h : name ∈ Flavor.named.map (·.name)) :
    ∃ f, Flavor.ofName name = .ok f ∧ f.name = name := by
  simp only [Flavor.named, List.map_cons, List.map_nil, List.mem_cons, List.not_mem_nil, or_false] at h
  rcases h with rfl | rfl | rfl
  · exact ⟨Flavor.javadoc, rfl, rfl⟩
  · exact ⟨Flavor.phpdoc, rfl, rfl⟩
  · exact ⟨Flavor.jsdoc, rfl, rfl⟩

theorem getD_of_forall {α : Type} {P : α → Prop} {o : Option α} {d : α} (h : ∀ a ∈ o, P a) (hd : P d) :
    P (o.getD d) := by
  cases o with
  | none => exact hd
  | some a => exact h a rfl

theorem forall_mem_bind {α β : Type} {P : β → Prop} {valid : α → Option β} (h : ∀ v, ∀ x ∈ valid v, P x)
    (o : Option α) : ∀ x ∈ o.bind valid, P x := by
  intro x hx
  obtain ⟨v, -, hv⟩ := Option.bind_eq_some_iff.mp hx
  exact h v x hv

theorem known_of_mem_flavor? (v : Value) : ∀ key ∈ flavor? v, key ∈ Flavor.named.map (·.name) :=
  fun _ h => of_decide_eq_true (Option.filter_eq_some_iff.mp h).2

theorem range_of_mem_headingLevel? (v : Value) : ∀ n ∈ headingLevel? v, 1 ≤ n ∧ n ≤ 6 :=
  fun _ h => of_decide_eq_true (Option.filter_eq_some_iff.mp h).2

theorem ne_nil_of_mem_extension? (v : Value) : ∀ e ∈ extension? v, e ≠ [] :=
  fun _ h => of_decide_eq_true (Option.filter_eq_some_iff.mp h).2

theorem known_of_mem_logLevel? (v : Value) : ∀ level ∈ logLevel? v, level ∈ logLevels :=
  fun _ h => of_decide_eq_true (Option.filter_eq_some_iff.mp h).2

namespace Layer

structure IsValid (l : Layer) : Prop where
  flavor : ∀ key ∈ l.flavor, key ∈ Flavor.named.map (·.name)
  headingLevel : ∀ n ∈ l.headingLevel, 1 ≤ n ∧ n ≤ 6
  extension : ∀ e ∈ l.extension, e ≠ []
  logLevel : ∀ level ∈ l.logLevel, level ∈ logLevels

/-- Laying a layer over settings keeps them valid. -/
theorem IsValid.over {l : Layer} (hl : l.IsValid) {s : Settings} (hs : s.IsValid) : (l.over s).IsValid where
  flavor := getD_of_forall (P := fun name => ∃ f, Flavor.ofName name = .ok f ∧ f.name = name)
    (fun key hkey => exists_ofName (hl.flavor key hkey)) hs.flavor
  headingLevel := getD_of_forall (P := fun n => 1 ≤ n ∧ n ≤ 6) hl.headingLevel hs.headingLevel
  extension := getD_of_forall (P := (· ≠ [])) hl.extension hs.extension
  logLevel := getD_of_forall (P := (· ∈ logLevels)) hl.logLevel hs.logLevel

end Layer

/-- All that a document says is valid. -/
theorem isValid_fileLayer (data : Fields) : (fileLayer data).IsValid where
  flavor := forall_mem_bind known_of_mem_flavor? _
  headingLevel := forall_mem_bind range_of_mem_headingLevel? _
  extension := forall_mem_bind ne_nil_of_mem_extension? _
  logLevel := forall_mem_bind known_of_mem_logLevel? _

/-- All that an environment says is valid. -/
theorem isValid_envLayer (env : Env) : (envLayer env).IsValid where
  flavor := forall_mem_bind (fun v => known_of_mem_flavor? (.str v)) _
  headingLevel := forall_mem_bind (fun v => range_of_mem_headingLevel? (.str v)) _
  extension := forall_mem_bind (fun v => ne_nil_of_mem_extension? (.str v)) _
  logLevel := forall_mem_bind (fun v => known_of_mem_logLevel? (.str v)) _

theorem isValid_default (file : Option Path) : IsValid { configFile := file } where
  flavor := ⟨Flavor.javadoc, rfl, rfl⟩
  headingLevel := ⟨by simp, by simp⟩
  extension := by simp
  logLevel := by simp [logLevels]

/-- **Settings are layered field by field.** Whatever the reader of documents, loading yields, for every
setting, the valid value of the environment, else that of the document, else the default, and all that is
yielded is valid. It fails only where a default file cannot be looked up, the file is unreadable, or the
document is not loadable. So a missing file, a directory and a text that is malformed act as an empty
document, but a file that is no text does not. -/
theorem load_layered (reader : Toml.Reader) (tree : FileTree) (cwd : Path) (env : Env)
    (asked : Option Text) :
    let file := file? tree cwd env asked
    let document := file.bind (document? reader tree cwd)
    let loaded := (envLayer env).over ((fileLayer (document.getD [])).over
      { configFile := document.bind fun _ => file })
    Settles (load reader tree cwd env asked)
        ((∀ e, fileToRead tree cwd env asked ≠ .error e) ∧
          (∀ p ∈ file, ¬ Unreadable reader tree cwd p) ∧ ∀ data ∈ document, Loadable data) loaded ∧
      loaded.IsValid :=
  ⟨settles_load reader tree cwd env asked,
    (isValid_envLayer env).over ((isValid_fileLayer _).over (isValid_default _))⟩

def settingsDir (content : Bytes) (rights : Rights := {}) : FileTree :=
  .dir [("doc2md.toml".toList, .file content)] rights

/-- A flavor in another case, and a heading level that is too large. -/
def flavorEnv : Env :=
  [("DOC2MD_FLAVOR".toList, " JSDoc ".toList), ("DOC2MD_HEADING_LEVEL".toList, "9".toList)]

/-- One byte that is no text ends the loading, and so does a working directory that lets no path through.
Without a file the environment is laid over the defaults. -/
theorem load_layered_samples :
    (∀ es, ∃ e es', Fails (load Toml.parse (settingsDir [255]) .top flavorEnv none) es e es') ∧
      (∀ es, ∃ e es', Fails (load Toml.parse (settingsDir [] { search := false }) .top flavorEnv none) es e es') ∧
      ∀ es, ∃ es', Yields (load Toml.parse (.dir []) .top flavorEnv none) es { flavor := "jsdoc".toList } es' := by
  have hfound : file? (settingsDir [255]) .top flavorEnv none = some ⟨[], ["doc2md.toml".toList]⟩ := rfl
  have hundecodable : Unreadable Toml.parse (settingsDir [255]) .top ⟨[], ["doc2md.toml".toList]⟩ :=
    Or.inr ⟨[255], rfl, trivial⟩
  have hdenied : fileToRead (settingsDir [] { search := false }) .top flavorEnv none =
      .error ⟨.denied, ⟨[], ["doc2md.toml".toList]⟩⟩ := rfl
  have hnone : fileToRead (.dir []) .top flavorEnv none = .ok none := rfl
  refine ⟨?_, ?_, ?_⟩
  · intro es
    obtain ⟨hsettles, -⟩ := load_layered Toml.parse (settingsDir [255]) .top flavorEnv none
    exact (hsettles es).2 fun hneeds => hneeds.2.1 _ hfound hundecodable
  · intro es
    obtain ⟨hsettles, -⟩ := load_layered Toml.parse (settingsDir [] { search := false }) .top flavorEnv none
    exact (hsettles es).2 fun hneeds => hneeds.1 _ hdenied
  · intro es
    obtain ⟨hsettles, -⟩ := load_layered Toml.parse (.dir []) .top flavorEnv none
    have hfile : file? (.dir []) .top flavorEnv none = none := rfl
    rw [hfile] at hsettles
    exact (hsettles es).1 (by simp [hnone])

end DocMark.Settings
