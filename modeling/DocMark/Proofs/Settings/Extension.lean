import DocMark.Proofs.Settings.Layers
import DocMark.Proofs.Site.Plan
import DocMark.Proofs.Text.CleanForm

/-!
An extension that is given in two ways.

A site takes the extension that it is given without the white space around it and without the points in front.
Settings do the same with the extension that they are given, and a site then does it once more with theirs.
Once is as good as twice unless white space comes to the front when the points are taken off
(`normalizeExtension_idempotent_iff`). So a site made from settings looks for the same sources as one that is
given the same text, but for texts such as `. java` (`extension_same_iff`).
-/

namespace DocMark

open Text

namespace Site

/-- White space behind the points that a text begins with, and ink behind it. Taking the points off brings the
white space to the front. -/
def UncoversSpace (s : Text) : Prop :=
  ∃ sp dots c rest, s = sp ++ ('.' :: dots ++ c :: rest) ∧ (∀ d ∈ sp, isSpace d = true) ∧ (∀ d ∈ dots, d = '.') ∧
    isSpace c = true ∧ ink rest ≠ []

/-- What stripping leaves ends in ink, and so does every end of it. -/
theorem getLast?_normalizeExtension {s : Text} {c : Char} (h : (normalizeExtension s).getLast? = some c) :
    isSpace c = false := by
  obtain ⟨dots, hdots⟩ : normalizeExtension s <:+ strip s := List.dropWhile_suffix _
  refine not_of_getLast?_trimEnd (p := isSpace) (s := s.dropWhile isSpace) ?_
  change (strip s).getLast? = some c
  rw [← hdots, List.getLast?_append, h, Option.some_or]

theorem head?_normalizeExtension_ne (s : Text) : (normalizeExtension s).head? ≠ some '.' := by
  intro h
  have hnot := List.head?_dropWhile_not (· == '.') (strip s)
  rw [← normalizeExtension, h] at hnot
  cases hnot

/-- White space behind the points in front is kept, since the points are dropped last. -/
theorem normalizeExtension_of_points {sp dots rest : Text} {c : Char} (hsp : ∀ d ∈ sp, isSpace d = true)
    (hdots : ∀ d ∈ dots, d = '.') (hc : isSpace c = true) (hrest : ink rest ≠ []) :
    normalizeExtension (sp ++ ('.' :: dots ++ c :: rest)) = c :: stripEnd rest := by
  have hink : ink ('.' :: dots ++ [c]) ≠ [] := ink_ne_nil_of_mem rfl List.mem_cons_self
  have hstrip : strip ('.' :: dots ++ c :: rest) = '.' :: dots ++ [c] ++ stripEnd rest := by
    rw [List.append_cons, strip_append_of_ink hink hrest]
    rfl
  have hpoint : c ≠ '.' := by
    rintro rfl
    cases hc
  rw [normalizeExtension, strip_spaces_append hsp, hstrip, ← List.append_cons, List.dropWhile_append_of_pos,
    List.dropWhile_cons_of_neg (by simpa using hpoint)]
  simpa using hdots

/-- An extension ends in ink, so ink stands behind all white space in it. -/
theorem ink_ne_nil_of_normalizeExtension {s rest : Text} {c : Char} (h : normalizeExtension s = c :: rest)
    (hc : isSpace c = true) : ink rest ≠ [] := by
  intro hnone
  have hspaces : ∀ d ∈ c :: rest, isSpace d = true := List.forall_mem_cons.mpr ⟨hc, ink_eq_nil_iff.mp hnone⟩
  have hlast : isSpace ((c :: rest).getLast (List.cons_ne_nil c rest)) = false := by
    refine getLast?_normalizeExtension (s := s) ?_
    rw [h, List.getLast?_eq_some_getLast (List.cons_ne_nil c rest)]
  rw [hspaces _ (List.getLast_mem _)] at hlast
  cases hlast

/-- White space that comes to the front is what an extension then begins with. -/
theorem uncoversSpace_iff {s : Text} :
    UncoversSpace s ↔ (normalizeExtension s).head?.any isSpace = true := by
  constructor
  · rintro ⟨sp, dots, c, rest, rfl, hsp, hdots, hc, hrest⟩
    rwa [normalizeExtension_of_points hsp hdots hc hrest, List.head?_cons, Option.any_some]
  · intro h
    obtain ⟨c, hhead, hc⟩ := (Option.any_eq_true _ _).mp h
    obtain ⟨rest, hnorm⟩ := List.head?_eq_some_iff.mp hhead
    obtain ⟨a, b, heq, ha, -⟩ := exists_append_strip_append s
    have hstrip : strip s = (strip s).takeWhile (· == '.') ++ c :: rest := by
      rw [← hnorm, normalizeExtension, List.takeWhile_append_dropWhile]
    -- Stripping left no white space in front, so there is a point before the one that shows now.
    cases hdots : (strip s).takeWhile (· == '.') with
    | nil =>
      rw [hdots] at hstrip
      have hink := head?_strip (s := s) (by rw [hstrip]; rfl)
      rw [hc] at hink
      cases hink
    | cons d dots =>
      have hall : ∀ e ∈ d :: dots, e = '.' := by
        intro e he
        rw [← hdots] at he
        simpa using List.mem_takeWhile_imp he
      obtain ⟨rfl, hpoints⟩ := List.forall_mem_cons.mp hall
      have hrest := ink_ne_nil_of_normalizeExtension hnorm hc
      refine ⟨a, dots, c, rest ++ b, ?_, ha, hpoints, hc, by simp [hrest]⟩
      rw [hdots] at hstrip
      rw [hstrip] at heq
      simpa using heq

instance : DecidablePred UncoversSpace := fun _ => decidable_of_iff _ uncoversSpace_iff.symm

/-- **Once is as good as twice**, unless white space comes to the front. -/
theorem normalizeExtension_idempotent_iff {s : Text} :
    normalizeExtension (normalizeExtension s) = normalizeExtension s ↔ ¬ UncoversSpace s := by
  rw [uncoversSpace_iff]
  cases hnorm : normalizeExtension s with
  | nil => exact iff_of_true rfl (by simp)
  | cons c r =>
    rw [List.head?_cons, Option.any_some]
    cases hc : isSpace c with
    | true =>
      have hsub : (normalizeExtension (c :: r)).Sublist r := by
        rw [normalizeExtension, strip, List.dropWhile_cons_of_pos hc]
        exact (List.dropWhile_sublist _).trans ((trimEnd_sublist isSpace _).trans (List.dropWhile_sublist _))
      refine iff_of_false (fun heq => ?_) (by simp)
      have hle := hsub.length_le
      rw [heq, List.length_cons] at hle
      omega
    | false =>
      have hstrip : strip (c :: r) = c :: r := by
        refine strip_eq_self (fun d hd => ?_) fun d hd => ?_
        · exact Option.some.inj hd ▸ hc
        · exact getLast?_normalizeExtension (hnorm ▸ hd)
      have hpoint : c ≠ '.' := by
        rintro rfl
        exact head?_normalizeExtension_ne s (by rw [hnorm]; rfl)
      refine iff_of_true ?_ (by simp)
      rw [normalizeExtension, hstrip, List.dropWhile_cons_of_neg (by simpa using hpoint)]

end Site

namespace Settings

open Site

/-- Settings that were loaded with the text `s` for their extension. The environment has it, or the document has
it and the environment gives none. -/
inductive LoadedWith (s : Text) (settings : Settings) : Prop where
  | inEnv {reader : Toml.Reader} {tree : FileTree} {cwd : Path} {env : Env} {asked : Option Text}
      {es es' : List Event} (h : env.lookup "DOC2MD_EXTENSION".toList = some s)
      (hload : Yields (load reader tree cwd env asked) es settings es')
  | inFile {reader : Toml.Reader} {tree : FileTree} {cwd : Path} {env : Env} {asked : Option Text}
      {es es' : List Event} {data : Fields} (hnone : (envLayer env).extension = none)
      (hdata : (file? tree cwd env asked).bind (document? reader tree cwd) = some data)
      (h : valueAt? data "generate" "extension" = some (.str s))
      (hload : Yields (load reader tree cwd env asked) es settings es')

theorem extension?_str {s : Text} (h : normalizeExtension s ≠ []) :
    extension? (.str s) = some (normalizeExtension s) :=
  Option.filter_some_pos (decide_eq_true h)

/-- Settings hold what is left of the extension that they are given, if anything is. -/
theorem LoadedWith.extension_eq {s : Text} {settings : Settings} (hloaded : LoadedWith s settings)
    (hs : normalizeExtension s ≠ []) : settings.extension = normalizeExtension s := by
  cases hloaded with
  | @inEnv reader tree cwd env asked _ _ h hload =>
    obtain ⟨-, rfl⟩ := (settles_load reader tree cwd env asked).of_yields hload
    have henv : (envLayer env).extension = some (normalizeExtension s) := by
      simp only [envLayer, h, Option.bind_some, extension?_str hs]
    simp only [Layer.over, henv, Option.getD_some]
  | @inFile reader tree cwd env asked _ _ data hnone hdata h hload =>
    obtain ⟨-, rfl⟩ := (settles_load reader tree cwd env asked).of_yields hload
    have hfile : (fileLayer data).extension = some (normalizeExtension s) := by
      simp only [fileLayer, h, Option.bind_some, extension?_str hs]
    simp only [Layer.over, hnone, Option.getD_none, hdata, Option.getD_some, hfile]

/-- **An extension means the same from settings as from a request**, unless white space comes to the front when
its points are taken off. A site that is given such a text looks for sources by an extension that begins with
white space. From settings it takes that white space off as well, and the points behind it, and is refused if
nothing is left. -/
theorem extension_same_iff (s : Text) :
    (normalizeExtension (normalizeExtension s) = normalizeExtension s ↔ ¬ UncoversSpace s) ∧
      ∀ settings, LoadedWith s settings → normalizeExtension s ≠ [] →
        ∀ (tree : FileTree) (cwd : Path) (r : Request),
          let given := Plan.ofRequest tree cwd { r with extension := s }
          let configured := Plan.ofRequest tree cwd { r with extension := settings.extension }
          (¬ UncoversSpace s → configured = given) ∧
            ∀ p, given = .ok p → p.extension = normalizeExtension s ∧
              (configured = if normalizeExtension p.extension = [] then .error .emptyExtension
                else .ok { p with extension := normalizeExtension p.extension }) ∧
              (configured = given ↔ ¬ UncoversSpace s) := by
  refine ⟨normalizeExtension_idempotent_iff, ?_⟩
  intro settings hloaded hs tree cwd r given configured
  have htwice : normalizeExtension settings.extension = normalizeExtension (normalizeExtension s) := by
    rw [hloaded.extension_eq hs]
  have hsame : ¬ UncoversSpace s → configured = given := fun hnone =>
    ofRequest_congr_extension (htwice.trans (normalizeExtension_idempotent_iff.mpr hnone)) tree cwd r
  refine ⟨hsame, fun p hp => ?_⟩
  obtain ⟨hextension, hconfigured⟩ := ofRequest_with_extension hp settings.extension
  change p.extension = normalizeExtension s at hextension
  rw [htwice, ← hextension] at hconfigured
  refine ⟨hextension, hconfigured, fun heq => ?_, hsame⟩
  have hok := hconfigured.symm.trans (heq.trans hp)
  split at hok
  · cases hok
  · rw [← normalizeExtension_idempotent_iff, ← hextension]
    exact congrArg Plan.extension (Except.ok.inj hok)

def extensionEnv (s : String) : Env := [("DOC2MD_EXTENSION".toList, s.toList)]

def siteHere : Request :=
  { source := ⟨[], []⟩, given := ".".toList, output := ⟨[], ["docs".toList]⟩, extension := [] }

/-- Points and white space in front of an extension make no difference, but white space behind the points does. -/
theorem extension_same_iff_points :
    let here (s : Text) := Plan.ofRequest (.dir []) .top { siteHere with extension := s }
    (∃ settings, LoadedWith " .java".toList settings ∧ here settings.extension = here " .java".toList) ∧
      ∃ settings, LoadedWith ". java".toList settings ∧ here settings.extension ≠ here ". java".toList := by
  intro here
  have hloaded : ∀ s : String, ∃ settings, LoadedWith s.toList settings := by
    intro s
    have hnone : fileToRead (.dir []) .top (extensionEnv s) none = .ok none := rfl
    have hfile : file? (.dir []) .top (extensionEnv s) none = none := rfl
    obtain ⟨hneeds, -⟩ := settles_load Toml.parse (.dir []) .top (extensionEnv s) none []
    obtain ⟨es, hyields⟩ := hneeds (by simp [hnone, hfile])
    exact ⟨_, .inEnv rfl hyields⟩
  obtain ⟨plain, hplain⟩ := hloaded " .java"
  obtain ⟨spaced, hspaced⟩ := hloaded ". java"
  have hsame := (extension_same_iff _).2 plain hplain (by decide) (.dir []) .top siteHere
  have hdiffer := (extension_same_iff _).2 spaced hspaced (by decide) (.dir []) .top siteHere
  refine ⟨⟨plain, hplain, hsame.1 (by decide)⟩, ⟨spaced, hspaced, fun heq => ?_⟩⟩
  exact absurd (by decide : UncoversSpace ". java".toList) ((hdiffer.2 _ rfl).2.2.mp heq)

end Settings

end DocMark
