import DocMark.Command.Options
import DocMark.Proofs.Document.Headings
import DocMark.Proofs.FileTree.Writing
import DocMark.Proofs.Session.Printing
import DocMark.Proofs.Site.Plan

/-!
Every command answers once.

A command that converts a file or generates a site ends with exactly one answer: that of a success on the
standard output and exit code 0, or that of a failure on the error output and exit code 1
(`runNamed_answers_once`). It gets stuck, and ends without an answer, only at a path that begins with the home
of somebody unknown, at a file to convert that the system does not let be looked up, and at a null character in
the place to write to. How the arguments are read does not matter, as long as reading them changes nothing
(`ArgumentReader.IsPassive`).
-/

namespace DocMark.Command

open Session

/-! ### Ways to end -/

section Ends

variable {sink : Sink} {id : Text} {s s' : Session} {α β : Type}

/-- The run ends early. How it ends and what it has answered is as `ending` says. -/
def Breaks (sink : Sink) (id : Text) (ending : Halt → List Text → Prop) (x : Run α) (s : Session) : Prop :=
  ∃ halt err s', Fails x s halt s' ∧ ending halt err ∧ Prints sink id [] err s s'

def Crash (halt : Halt) (err : List Text) : Prop := (∃ f, halt = .crash f) ∧ err = []

/-- Exit code 1 with the answer of a failure. -/
def Refusal (id : Text) (halt : Halt) (err : List Text) : Prop :=
  halt = .exit (.int 1) ∧ ∃ e : Envelope, e.IsFailure id ∧ err = [e.line]

def Succeeds (sink : Sink) (id : Text) (x : Run Unit) (s : Session) : Prop :=
  ∃ (e : Envelope) (s' : Session), e.IsSuccess id ∧ Yields x s () s' ∧ Prints sink id [e.line] [] s s'

/-- What ends a run ends whatever contains it first. -/
theorem Breaks.bind {ending : Halt → List Text → Prop} {x : Run α} (h : Breaks sink id ending x s)
    (f : α → Run β) : Breaks sink id ending (x >>= f) s := by
  obtain ⟨halt, err, s', hfails, hending, hprints⟩ := h
  exact ⟨halt, err, s', fails_bind_iff.mpr (Or.inl hfails), hending, hprints⟩

/-- What a run goes on with decides how it ends. -/
theorem Breaks.of_run_eq {ending : Halt → List Text → Prop} {x y : Run α} (heq : x.run.run s = y.run.run s')
    (hprints : Prints sink id [] [] s s') (h : Breaks sink id ending y s') : Breaks sink id ending x s := by
  obtain ⟨halt, err, s'', hfails, hending, hprints'⟩ := h
  exact ⟨halt, err, s'', heq.trans hfails, hending, hprints.trans hprints'⟩

/-- What comes before the end may log, but does not answer. -/
theorem Breaks.of_yields {ending : Halt → List Text → Prop} {x : Run α} {f : α → Run β} {a : α}
    (hx : Yields x s a s') (hprints : Prints sink id [] [] s s') (h : Breaks sink id ending (f a) s') :
    Breaks sink id ending (x >>= f) s :=
  Breaks.of_run_eq (run_bind_of_yields hx) hprints h

theorem Succeeds.of_run_eq {x y : Run Unit} (heq : x.run.run s = y.run.run s')
    (hprints : Prints sink id [] [] s s') (h : Succeeds sink id y s') : Succeeds sink id x s := by
  obtain ⟨e, s'', he, hyields, hprints'⟩ := h
  exact ⟨e, s'', he, heq.trans hyields, hprints.trans hprints'⟩

/-- A step that looks at the session does nothing else. -/
theorem Breaks.of_get {ending : Halt → List Text → Prop} {f : Session → Run β}
    (h : Breaks sink id ending (f s) s) : Breaks sink id ending (get >>= f) s :=
  Breaks.of_yields (yields_get_iff.mpr ⟨rfl, rfl⟩) (Prints.refl s) h

theorem breaks_crash (f : Fault) (s : Session) : Breaks sink id Crash (throw (.crash f) : Run α) s :=
  ⟨_, [], s, fails_throw_iff.mpr ⟨rfl, rfl⟩, ⟨⟨f, rfl⟩, rfl⟩, Prints.refl s⟩

/-- A failure that is emitted is a refusal. -/
theorem breaks_emitFailure (h : InLoggedRun sink id s) {e : Envelope} (he : e.IsFailure id) :
    Breaks sink id (Refusal id) (emitFailure e : Run α) s :=
  ⟨_, _, _, fails_emitFailure h e, ⟨rfl, _, he.withRequestId id, rfl⟩, prints_emitFailure s _⟩

end Ends

/-! ### Home directories -/

def StartsAtHome (p : Path) (user : RawText) : Prop :=
  p.root = [] ∧ ∃ rest, p.parts = (.char '~' :: user) :: rest

/-- The path begins with the home of somebody who is not known. -/
def NamesStranger (s : Session) (p : Path) : Prop :=
  ∃ user, StartsAtHome p user ∧ RawChar.char '\x00' ∉ user ∧ user ≠ [] ∧ s.users.lookup user = none

/-- The path begins with a home that cannot be put in: nobody is known by the name, or it holds a null
character. -/
def Homeless (s : Session) (p : Path) : Prop :=
  NamesStranger s p ∨ ∃ user, StartsAtHome p user ∧ RawChar.char '\x00' ∈ user

theorem StartsAtHome.unique {p : Path} {user user' : RawText} (h : StartsAtHome p user)
    (h' : StartsAtHome p user') : user = user' := by
  obtain ⟨-, rest, hparts⟩ := h
  obtain ⟨-, rest', hparts'⟩ := h'
  cases hparts.symm.trans hparts'
  rfl

/-- **Putting in a home directory** fails exactly for strangers and for names with a null character. -/
theorem expandHome_eq_error_iff {s : Session} {p : Path} {e : Path.HomeError} :
    p.expandHome s.home s.users = .error e ↔
      match e with
      | .unknownUser => NamesStranger s p
      | .nullInName => ∃ user, StartsAtHome p user ∧ RawChar.char '\x00' ∈ user := by
  unfold Path.expandHome
  split
  · rename_i user rest hroot hparts
    have hstarts : StartsAtHome p user := ⟨hroot, rest, hparts⟩
    by_cases hnull : RawChar.char '\x00' ∈ user
    · rw [if_pos (List.contains_iff_mem.mpr hnull)]
      cases e with
      | nullInName => exact iff_of_true rfl ⟨user, hstarts, hnull⟩
      | unknownUser =>
        refine iff_of_false (by simp) ?_
        rintro ⟨user', hstarts', hno, -⟩
        exact hno (hstarts.unique hstarts' ▸ hnull)
    · rw [if_neg (mt List.contains_iff_mem.mp hnull)]
      cases e with
      | nullInName =>
        refine iff_of_false (by split <;> simp) ?_
        rintro ⟨user', hstarts', hmem⟩
        exact hnull (hstarts.unique hstarts' ▸ hmem)
      | unknownUser =>
        have hstranger : NamesStranger s p ↔ user ≠ [] ∧ s.users.lookup user = none := by
          constructor
          · rintro ⟨user', hstarts', -, hunknown⟩
            exact hstarts.unique hstarts' ▸ hunknown
          · exact fun hunknown => ⟨user, hstarts, hnull, hunknown⟩
        rw [hstranger]
        by_cases hempty : user = []
        · simp [hempty]
        · cases s.users.lookup user <;> simp [hempty]
  · rename_i hother
    have hnot : ∀ user, ¬ StartsAtHome p user := fun user ⟨hroot, rest, hparts⟩ => hother user rest hroot hparts
    refine iff_of_false (by simp) ?_
    cases e with
    | nullInName => exact fun ⟨user, hstarts, _⟩ => hnot user hstarts
    | unknownUser => exact fun ⟨user, hstarts, _⟩ => hnot user hstarts

/-- A path is homeless exactly if its home cannot be put in. -/
theorem homeless_iff {s : Session} {p : Path} :
    Homeless s p ↔ ∃ e, p.expandHome s.home s.users = .error e := by
  constructor
  · rintro (h | h)
    · exact ⟨.unknownUser, expandHome_eq_error_iff.mpr h⟩
    · exact ⟨.nullInName, expandHome_eq_error_iff.mpr h⟩
  · rintro ⟨e, he⟩
    have h := expandHome_eq_error_iff.mp he
    cases e with
    | unknownUser => exact Or.inl h
    | nullInName => exact Or.inr h

section Steps

variable {sink : Sink} {id : Text} {s : Session} {c : Context}

theorem yields_expandHome {p q : Path} (h : p.expandHome s.home s.users = .ok q) :
    Yields (expandHome p) s q s := by
  refine yields_bind_iff.mpr ⟨s, s, yields_get_iff.mpr ⟨rfl, rfl⟩, ?_⟩
  rw [h]
  exact yields_pure_iff.mpr ⟨rfl, rfl⟩

theorem Breaks.of_expandHome {β : Type} {ending : Halt → List Text → Prop} {p q : Path} {f : Path → Run β}
    (h : p.expandHome s.home s.users = .ok q) (hf : Breaks sink id ending (f q) s) :
    Breaks sink id ending (expandHome p >>= f) s :=
  Breaks.of_yields (yields_expandHome h) (Prints.refl s) hf

theorem exists_expandHome {p : Path} (h : ¬ Homeless s p) : ∃ q, p.expandHome s.home s.users = .ok q := by
  cases hexpand : p.expandHome s.home s.users with
  | ok q => exact ⟨q, rfl⟩
  | error e => exact absurd (homeless_iff.mpr ⟨e, hexpand⟩) h

theorem breaks_expandHome {p : Path} (h : Homeless s p) : Breaks sink id Crash (expandHome p) s := by
  obtain ⟨e, he⟩ := homeless_iff.mp h
  refine Breaks.of_get ?_
  rw [he]
  cases e with
  | _ => exact breaks_crash _ s

/-! ### Converting a file -/

/-- A file cannot be brought to a path: the path begins with a home that cannot be put in, or writing there meets a
null character. -/
def Unwritable (s : Session) (output : Text) : Prop :=
  Homeless s (Path.ofText output) ∨
    ∃ target p tree, (Path.ofText output).expandHome s.home s.users = .ok target ∧
      Fails (FileTree.save s.cwd target []) s.files ⟨.nullByte, p⟩ tree

/-- The path of the file to convert begins with a home that cannot be put in, or the system does not let it be
looked up; or the file can be read and rendered, but the result cannot be brought where it is asked for. -/
def ConvertRequest.Stuck (r : ConvertRequest) (c : Context) (s : Session) : Prop :=
  Homeless s (Path.ofText r.file) ∨
    ∃ path, (Path.ofText r.file).expandHome s.home s.users = .ok path ∧
      ((∃ e, s.files.seen path s.cwd = .error e) ∨
        (∃ content, s.files.read path s.cwd = .ok content) ∧
          (∃ flavor, Flavor.ofName (c.flavor r.flavor) = .ok flavor) ∧
          ∃ output ∈ r.output, output ≠ [] ∧ Unwritable s output)

variable {r : ConvertRequest} {path : Path}

theorem yields_readRequested {content : Bytes} (h : s.files.read path s.cwd = .ok content) :
    Yields (readRequested r path) s content s := by
  obtain ⟨rights, hlook, -⟩ := FileTree.read_eq_ok_iff_look.mp h
  refine yields_bind_iff.mpr ⟨s, s, yields_get_iff.mpr ⟨rfl, rfl⟩, ?_⟩
  simp only [FileTree.seen, hlook, h]
  exact yields_pure_iff.mpr ⟨rfl, rfl⟩

/-- A path that cannot be looked up ends the reading without an answer. -/
theorem crash_readRequested {e : FileCause} (h : s.files.seen path s.cwd = .error e) :
    Breaks sink id Crash (readRequested r path) s := by
  refine Breaks.of_get ?_
  rw [h]
  exact breaks_crash _ s

/-- A path that can be looked up but not read is answered for: it does not exist, or the system refuses it. -/
theorem refusal_readRequested (hrun : InLoggedRun sink id s)
    (hseen : ∀ e, s.files.seen path s.cwd ≠ .error e)
    (hread : ∀ content, s.files.read path s.cwd ≠ .ok content) :
    Breaks sink id (Refusal id) (readRequested r path) s := by
  refine Breaks.of_get ?_
  rw [hrun.context]
  have hmissing := breaks_emitFailure (α := Bytes) hrun
    (Envelope.isFailure_notFound hrun.ne_nil "File".toList r.file
      (some "Provide the path of an existing source file".toList))
  cases hnode : s.files.seen path s.cwd with
  | error e => exact absurd hnode (hseen e)
  | ok node =>
    cases node with
    | none => exact hmissing
    | some node =>
      cases node with
      | dir es rights => exact hmissing
      | file b rights =>
        dsimp only
        cases hcontent : s.files.read path s.cwd with
        | ok content => exact absurd hcontent (hread content)
        | error e => exact breaks_emitFailure hrun (Envelope.isFailure_internal hrun.ne_nil _)

/-- A text is rendered in the flavor and at the level that were asked for. -/
theorem exists_rendering {flavor : Flavor} (hflavor : Flavor.ofName (c.flavor r.flavor) = .ok flavor)
    (text : Text) :
    ∃ rendered, Document.render ⟨flavor, c.headingLevel r.headingLevel⟩ text = .ok rendered ∧
      rendering c r text = .ok (⟨flavor, c.headingLevel r.headingLevel⟩, rendered) := by
  obtain ⟨rendered, hrender⟩ := Document.exists_render
    (Flavor.isSpecified_of_mem_named (Site.mem_named_of_ofName hflavor)) (c.headingLevel r.headingLevel) text
  refine ⟨rendered, hrender, ?_⟩
  simp only [rendering, hflavor, hrender, bind, Except.bind]
  rfl

/-- A text that can be rendered is rendered, and what there is to say about it is logged. -/
theorem logs_renderRequested (hrun : InLoggedRun sink id s) {text : Text} {options : Document.Options}
    {rendered : Document.Rendered} (h : rendering c r text = .ok (options, rendered)) :
    ∃ s', Yields (renderRequested c r text) s rendered s' ∧ Logs sink id s s' := by
  obtain ⟨s', hyields, hlogs⟩ := logs_logEvents hrun (Document.events options text rendered)
  refine ⟨s', ?_, hlogs⟩
  unfold renderRequested
  rw [h]
  exact yields_bind_iff.mpr ⟨(), s', hyields, yields_pure_iff.mpr ⟨rfl, rfl⟩⟩

/-- A text that cannot be rendered is answered for. -/
theorem refusal_renderRequested (hrun : InLoggedRun sink id s) {text : Text} {e : FlavorError}
    (h : rendering c r text = .error e) : Breaks sink id (Refusal id) (renderRequested c r text) s := by
  unfold renderRequested
  rw [h]
  refine Breaks.of_get (breaks_emitFailure hrun ?_)
  rw [hrun.context]
  exact Envelope.isFailure_validation hrun.ne_nil _ _ _

/-- Work on the files leaves everything else in the session as it is. -/
theorem yields_onFiles {act : ExceptT FileError (StateM FileTree) Unit} {result : Except FileError Unit}
    {tree : FileTree} (h : act.run.run s.files = (result, tree)) :
    Yields (onFiles act) s result { s with files := tree } := by
  refine yields_bind_iff.mpr ⟨s, s, yields_get_iff.mpr ⟨rfl, rfl⟩, ?_⟩
  rw [h]
  exact yields_bind_iff.mpr ⟨⟨⟩, _, yields_set_iff.mpr rfl, yields_pure_iff.mpr ⟨rfl, rfl⟩⟩

/-- The Markdown is written, or the answer says why not, or there is a null character in the way. -/
theorem writeRequested_cases (hrun : InLoggedRun sink id s) {output : Text} {target : Path}
    (htarget : (Path.ofText output).expandHome s.home s.users = .ok target) (markdown : Text) :
    (∃ s', Yields (FileTree.save s.cwd target (Utf8.encode markdown)) s.files () s'.files ∧
        Yields (writeRequested output markdown) s target s' ∧ Prints sink id [] [] s s') ∨
      ∃ e tree, Fails (FileTree.save s.cwd target (Utf8.encode markdown)) s.files e tree ∧
        (e.cause ≠ .nullByte → Breaks sink id (Refusal id) (writeRequested output markdown) s) ∧
        (e.cause = .nullByte → Breaks sink id Crash (writeRequested output markdown) s) := by
  rcases hfiles : (FileTree.save s.cwd target (Utf8.encode markdown)).run.run s.files with ⟨result, tree⟩
  have hprints : Prints sink id [] [] s { s with files := tree } := prints_files s tree
  have honFiles := yields_onFiles hfiles
  have hrun' := hrun.of_sameRun hprints.toSameRun
  cases result with
  | ok u =>
    obtain ⟨s', hlog, hlogs⟩ := logs_logCommand hrun' .info ("Wrote ".toList ++ target.toText)
      [("command".toList, .ofString "convert")]
    refine Or.inl ⟨s', hlogs.files ▸ hfiles, ?_, hprints.trans hlogs.prints⟩
    refine yields_bind_iff.mpr ⟨target, s, yields_expandHome htarget, ?_⟩
    refine yields_bind_iff.mpr ⟨s, s, yields_get_iff.mpr ⟨rfl, rfl⟩, ?_⟩
    refine yields_bind_iff.mpr ⟨_, _, honFiles, ?_⟩
    exact yields_bind_iff.mpr ⟨(), s', hlog, yields_pure_iff.mpr ⟨rfl, rfl⟩⟩
  | error e =>
    obtain ⟨cause, p⟩ := e
    refine Or.inr ⟨_, tree, hfiles, fun hcause => ?_, fun hcause => ?_⟩ <;>
      refine Breaks.of_expandHome htarget (Breaks.of_get (Breaks.of_yields honFiles hprints ?_))
    · have hanswer := breaks_emitFailure (α := Path) hrun' (Envelope.isFailure_internal hrun'.ne_nil
        ("Could not write ".toList ++ output ++ ": ".toList ++ FileError.message ⟨cause, p⟩))
      cases cause with
      | nullByte => exact absurd rfl hcause
      | _ =>
        refine Breaks.of_get ?_
        rw [hrun'.context]
        exact hanswer
    · obtain rfl : cause = .nullByte := hcause
      exact breaks_crash _ _

/-- Without a place to write to the Markdown becomes part of the answer. -/
theorem yields_deliver (h : ∀ output ∈ r.output, output = []) (markdown : Text) (s : Session) :
    Yields (deliver r markdown) s [("markdown", .str markdown)] s := by
  unfold deliver
  cases hgiven : r.output with
  | none => exact yields_pure_iff.mpr ⟨rfl, rfl⟩
  | some output =>
    obtain rfl := h output hgiven
    exact yields_pure_iff.mpr ⟨rfl, rfl⟩

theorem deliver_eq {output : Text} (hgiven : r.output = some output) (hne : output ≠ []) (markdown : Text) :
    deliver r markdown =
      writeRequested output markdown >>= fun target => pure [("output", .str target.toText)] := by
  unfold deliver
  rw [hgiven]
  cases output with
  | nil => exact absurd rfl hne
  | cons d o => rfl

/-- Markdown that was delivered is answered for; without a place to write to it is part of the answer. -/
theorem exists_answerConversion (hrun : InLoggedRun sink id s) {s' : Session} {rendered : Document.Rendered}
    {result : List (String × Value)} (hdeliver : Yields (deliver r rendered.markdown) s result s')
    (hprints : Prints sink id [] [] s s') (start : Float) :
    ∃ e : Envelope, e.IsSuccess id ∧
      (∀ v, result = [("markdown", v)] → e.data.get? "markdown".toList = some v) ∧
      Yields (answerConversion r path start rendered) s () { s' with stdout := s'.stdout ++ [e.line] } := by
  refine ⟨_, ?_, ?_, yields_bind_iff.mpr ⟨result, s', hdeliver,
    yields_bind_iff.mpr ⟨_, s', yields_bind_iff.mpr ⟨s', s', yields_get_iff.mpr ⟨rfl, rfl⟩,
      yields_pure_iff.mpr ⟨rfl, rfl⟩⟩, yields_emitSuccess (hrun.of_sameRun hprints.toSameRun) _ _⟩⟩⟩
  · exact Envelope.isSuccess_ofSuccess hrun.ne_nil id _ [] rfl
  · rintro v rfl
    rfl

/-- A file that can be read is rendered, and then answered for. -/
theorem run_conversion (hrun : InLoggedRun sink id s)
    (hpath : (Path.ofText r.file).expandHome s.home s.users = .ok path) {content : Bytes}
    (hread : s.files.read path s.cwd = .ok content) {flavor : Flavor}
    (hflavor : Flavor.ofName (c.flavor r.flavor) = .ok flavor) :
    ∃ rendered s', Document.render ⟨flavor, c.headingLevel r.headingLevel⟩ (Utf8.decodeReplacing content) =
        .ok rendered ∧ Logs sink id s s' ∧
      (conversion c r).run.run s = (answerConversion r path s.clock rendered).run.run s' := by
  obtain ⟨rendered, hrender, hrendering⟩ := exists_rendering (r := r) hflavor (Utf8.decodeReplacing content)
  obtain ⟨s', hyields, hlogs⟩ := logs_renderRequested hrun hrendering
  refine ⟨rendered, s', hrender, hlogs, ?_⟩
  exact (run_bind_of_yields (yields_get_iff.mpr ⟨rfl, rfl⟩)).trans
    ((run_bind_of_yields (yields_expandHome hpath)).trans
      ((run_bind_of_yields (yields_readRequested hread)).trans (run_bind_of_yields hyields)))

/-- Markdown for a file is answered for once it is written. If it cannot be, the answer says why, but for a null
character. -/
theorem answerConversion_cases (hrun : InLoggedRun sink id s) {output : Text}
    (hgiven : r.output = some output) (hne : output ≠ []) {target : Path}
    (htarget : (Path.ofText output).expandHome s.home s.users = .ok target) (path : Path) (start : Float)
    (rendered : Document.Rendered) :
    (∃ (e : Envelope) (s' : Session), e.IsSuccess id ∧
        Yields (FileTree.save s.cwd target (Utf8.encode rendered.markdown)) s.files () s'.files ∧
        Yields (answerConversion r path start rendered) s () s' ∧ Prints sink id [e.line] [] s s') ∨
      ∃ e tree, Fails (FileTree.save s.cwd target (Utf8.encode rendered.markdown)) s.files e tree ∧
        (e.cause ≠ .nullByte → Breaks sink id (Refusal id) (answerConversion r path start rendered) s) ∧
        (e.cause = .nullByte → Breaks sink id Crash (answerConversion r path start rendered) s) := by
  rcases writeRequested_cases hrun htarget rendered.markdown with
    ⟨s', hsave, hwrite, hprints⟩ | ⟨e, tree, hsave, hrefused, hcrash⟩
  · have hdeliver : Yields (deliver r rendered.markdown) s [("output", .str target.toText)] s' := by
      rw [deliver_eq hgiven hne]
      exact yields_bind_iff.mpr ⟨target, s', hwrite, yields_pure_iff.mpr ⟨rfl, rfl⟩⟩
    obtain ⟨e, he, -, hyields⟩ := exists_answerConversion hrun hdeliver hprints start
    exact Or.inl ⟨e, { s' with stdout := s'.stdout ++ [e.line] }, he, hsave, hyields,
      hprints.trans (prints_emitSuccess s' e)⟩
  · refine Or.inr ⟨e, tree, hsave, fun hcause => Breaks.bind ?_ _, fun hcause => Breaks.bind ?_ _⟩
    · rw [deliver_eq hgiven hne]
      exact (hrefused hcause).bind _
    · rw [deliver_eq hgiven hne]
      exact (hcrash hcause).bind _

/-- Log records do not change where files can be written. -/
theorem unwritable_congr {s' : Session} (h : Logs sink id s s') (output : Text) :
    Unwritable s' output ↔ Unwritable s output := by
  obtain ⟨_, rfl, -⟩ := h
  exact Iff.rfl

/-- Markdown that cannot be brought where it is asked for is not answered for. -/
theorem crash_answerConversion (hrun : InLoggedRun sink id s) {output : Text}
    (hgiven : r.output = some output) (hne : output ≠ []) (hunwritable : Unwritable s output) (start : Float)
    (rendered : Document.Rendered) : Breaks sink id Crash (answerConversion r path start rendered) s := by
  rcases hunwritable with hhome | ⟨target, p, tree, htarget, hnull⟩
  · refine Breaks.bind ?_ _
    rw [deliver_eq hgiven hne]
    exact ((breaks_expandHome hhome).bind _).bind _
  · have hfails := FileTree.fails_save_congr hnull (Utf8.encode rendered.markdown)
    rcases answerConversion_cases hrun hgiven hne htarget path start rendered with
      ⟨_, _, -, hsave, -⟩ | ⟨e, tree', hsave, -, hcrash⟩
    · cases hfails.symm.trans hsave
    · refine hcrash ?_
      cases hfails.symm.trans hsave
      rfl

/-- A conversion that gets stuck ends without an answer. -/
theorem crash_conversion (hrun : InLoggedRun sink id s) (hstuck : r.Stuck c s) :
    Breaks sink id Crash (conversion c r) s := by
  rcases hstuck with hhome |
    ⟨path, hpath, ⟨e, hhidden⟩ | ⟨⟨content, hread⟩, ⟨flavor, hflavor⟩, output, houtput, hne, hunwritable⟩⟩
  · exact Breaks.of_get ((breaks_expandHome hhome).bind _)
  · exact Breaks.of_get (Breaks.of_expandHome hpath ((crash_readRequested hhidden).bind _))
  · obtain ⟨rendered, s', -, hlogs, hrest⟩ := run_conversion hrun hpath hread hflavor
    refine Breaks.of_run_eq hrest hlogs.prints ?_
    exact crash_answerConversion (hrun.of_logs hlogs) houtput hne
      ((unwritable_congr hlogs output).mpr hunwritable) s.clock rendered

/-- Markdown that can be brought where it is asked for is answered for. -/
theorem answers_answerConversion (hrun : InLoggedRun sink id s)
    (houtput : ∀ output ∈ r.output, output ≠ [] → ¬ Unwritable s output) (start : Float)
    (rendered : Document.Rendered) :
    Succeeds sink id (answerConversion r path start rendered) s ∨
      Breaks sink id (Refusal id) (answerConversion r path start rendered) s := by
  by_cases hgiven : ∃ output ∈ r.output, output ≠ []
  · obtain ⟨output, hgiven, hne⟩ := hgiven
    obtain ⟨hhome, hnull⟩ := not_or.mp (houtput output hgiven hne)
    obtain ⟨target, htarget⟩ := exists_expandHome hhome
    rcases answerConversion_cases hrun hgiven hne htarget path start rendered with
      ⟨e, s', he, -, hyields, hprints⟩ | ⟨⟨cause, p⟩, tree, hsave, hrefused, -⟩
    · exact Or.inl ⟨e, s', he, hyields, hprints⟩
    · refine Or.inr (hrefused ?_)
      rintro rfl
      exact hnull ⟨target, p, tree, htarget, FileTree.fails_save_congr hsave []⟩
  · have hnone : ∀ output ∈ r.output, output = [] := by simpa using hgiven
    obtain ⟨e, he, -, hyields⟩ :=
      exists_answerConversion hrun (yields_deliver hnone _ s) (Prints.refl s) start
    exact Or.inl ⟨e, _, he, hyields, prints_emitSuccess s e⟩

/-- **A conversion that does not get stuck answers once.** -/
theorem answers_conversion (hrun : InLoggedRun sink id s) (hstuck : ¬ r.Stuck c s) :
    Succeeds sink id (conversion c r) s ∨ Breaks sink id (Refusal id) (conversion c r) s := by
  obtain ⟨hhome, hrest⟩ := not_or.mp hstuck
  obtain ⟨path, hpath⟩ := exists_expandHome hhome
  have hseen : ∀ e, s.files.seen path s.cwd ≠ .error e :=
    fun e he => hrest ⟨path, hpath, Or.inl ⟨e, he⟩⟩
  by_cases hfile : ∃ content, s.files.read path s.cwd = .ok content
  · obtain ⟨content, hread⟩ := hfile
    cases hflavor : Flavor.ofName (c.flavor r.flavor) with
    | error e =>
      refine Or.inr (Breaks.of_get (Breaks.of_expandHome hpath ?_))
      refine Breaks.of_yields (yields_readRequested hread) (Prints.refl s)
        ((refusal_renderRequested hrun (e := e) ?_).bind _)
      simp only [rendering, hflavor, bind, Except.bind]
    | ok flavor =>
      obtain ⟨rendered, s', -, hlogs, heq⟩ := run_conversion hrun hpath hread hflavor
      have houtput : ∀ output ∈ r.output, output ≠ [] → ¬ Unwritable s' output := by
        intro output houtput hne hunwritable
        exact hrest ⟨path, hpath, Or.inr ⟨⟨content, hread⟩, ⟨flavor, hflavor⟩, output, houtput, hne,
          (unwritable_congr hlogs output).mp hunwritable⟩⟩
      exact (answers_answerConversion (hrun.of_logs hlogs) houtput s.clock rendered).imp
        (Succeeds.of_run_eq heq hlogs.prints) (Breaks.of_run_eq heq hlogs.prints)
  · refine Or.inr (Breaks.of_get (Breaks.of_expandHome hpath (Breaks.bind ?_ _)))
    exact refusal_readRequested hrun hseen (not_exists.mp hfile)

/-! ### Generating a site -/

/-- The target begins with a home that cannot be put in, or the source with the home of somebody unknown. -/
def GenerateRequest.Stuck (r : GenerateRequest) (c : Context) (s : Session) : Prop :=
  Homeless s (c.outputDir r.targetDir) ∨ NamesStranger s (Path.ofText r.sourceDir)

/-- The site is built on the files of the session, and what there is to say about it is logged. -/
theorem exists_makeSite (hrun : InLoggedRun sink id s) {request : Site.Request} {plan : Site.Plan}
    (hplan : Site.Plan.ofRequest s.files s.cwd request = .ok plan)
    {result : Except Site.SiteError Site.Finished} {progress : Site.Progress}
    (hbuilt : plan.generate.run.run ⟨s.files, []⟩ = (result, progress)) :
    ∃ s', Yields (makeSite request) s result s' ∧ s'.files = progress.tree ∧ Prints sink id [] [] s s' := by
  have hprints : Prints sink id [] [] s { s with files := progress.tree } := prints_files s progress.tree
  obtain ⟨s', hlog, hlogs⟩ := logs_logEvents (hrun.of_sameRun hprints.toSameRun) progress.events
  refine ⟨s', yields_bind_iff.mpr ⟨s, s, yields_get_iff.mpr ⟨rfl, rfl⟩, ?_⟩, hlogs.files,
    hprints.trans hlogs.prints⟩
  rw [hplan]
  dsimp only
  rw [hbuilt]
  exact yields_bind_iff.mpr ⟨⟨⟩, _, yields_set_iff.mpr rfl,
    yields_bind_iff.mpr ⟨(), s', hlog, yields_pure_iff.mpr ⟨rfl, rfl⟩⟩⟩

theorem yields_makeSite_error {request : Site.Request} {e : Site.SiteError}
    (h : Site.Plan.ofRequest s.files s.cwd request = .error e) :
    Yields (makeSite request) s (.error e) s := by
  refine yields_bind_iff.mpr ⟨s, s, yields_get_iff.mpr ⟨rfl, rfl⟩, ?_⟩
  rw [h]
  exact yields_pure_iff.mpr ⟨rfl, rfl⟩

/-- Every error of a site has an answer with a code. -/
theorem isFailure_siteFailure (hne : id ≠ []) (sourceDir : Text) (destination : Path) (e : Site.SiteError) :
    (siteFailure id sourceDir destination e).IsFailure id := by
  have hinvalid : ∀ message, (siteFailure.invalid id message).IsFailure id :=
    fun message => Envelope.isFailure_validation hne _ _ _
  cases e with
  | sourceNotFound given => exact Envelope.isFailure_notFound hne _ _ _
  | noSources root extension => exact Envelope.isFailure_noMatches hne _ _ _
  | file e =>
    obtain ⟨cause, path⟩ := e
    cases cause with
    | notFound => exact Envelope.isFailure_notFound hne _ _ _
    | nullByte => exact hinvalid _
    | _ => exact Envelope.isFailure_internal hne _
  | _ => exact hinvalid _

/-- A finished site is answered for, and its files stay as they are. -/
theorem exists_answerSite (hrun : InLoggedRun sink id s) (start : Float) (site : Site.Finished) :
    ∃ e : Envelope, e.IsSuccess id ∧ ∃ s', Yields (answerSite start site) s () s' ∧ s'.files = s.files ∧
      Prints sink id [e.line] [] s s' := by
  obtain ⟨s', hlog, hlogs⟩ := logs_logCommand hrun .info
    ("Generated ".toList ++ Text.ofNat site.pages.length ++ " pages".toList)
    [("command".toList, .ofString "generate"), ("output_dir".toList, .str site.plan.outputDir.toText)]
  refine ⟨_, ?_, _, yields_bind_iff.mpr ⟨(), s', hlog, yields_bind_iff.mpr ⟨_, s',
      yields_bind_iff.mpr ⟨s', s', yields_get_iff.mpr ⟨rfl, rfl⟩, yields_pure_iff.mpr ⟨rfl, rfl⟩⟩,
      yields_emitSuccess (hrun.of_logs hlogs) _ _⟩⟩,
    hlogs.files, hlogs.prints.trans (prints_emitSuccess s' _)⟩
  exact Envelope.isSuccess_ofSuccess hrun.ne_nil id _ [] rfl

variable {request : GenerateRequest} {source destination : Path} {s' : Session}

theorem yields_makeRequested {result : Except Site.SiteError Site.Finished}
    (hmade : Yields (makeSite (request.site c source destination)) s result s')
    (hsource : (Path.ofText request.sourceDir).expandHome s.home s.users = .ok source) :
    Yields (makeRequested c request destination) s result s' := by
  refine yields_bind_iff.mpr ⟨s, s, yields_get_iff.mpr ⟨rfl, rfl⟩, ?_⟩
  rw [hsource]
  exact hmade

/-- Unless the source is below the home of a stranger, it is settled whether the site can be made. -/
theorem exists_makeRequested (hrun : InLoggedRun sink id s)
    (hsource : ¬ NamesStranger s (Path.ofText request.sourceDir)) (destination : Path) :
    ∃ result s', Yields (makeRequested c request destination) s result s' ∧ Prints sink id [] [] s s' := by
  cases hexpand : (Path.ofText request.sourceDir).expandHome s.home s.users with
  | error e =>
    cases e with
    | unknownUser => exact absurd (expandHome_eq_error_iff.mp hexpand) hsource
    | nullInName =>
      refine ⟨.error .nullInPath, s, yields_bind_iff.mpr ⟨s, s, yields_get_iff.mpr ⟨rfl, rfl⟩, ?_⟩,
        Prints.refl s⟩
      rw [hexpand]
      exact yields_pure_iff.mpr ⟨rfl, rfl⟩
  | ok source =>
    cases hplan : Site.Plan.ofRequest s.files s.cwd (request.site c source destination) with
    | error e => exact ⟨_, s, yields_makeRequested (yields_makeSite_error hplan) hexpand, Prints.refl s⟩
    | ok plan =>
      obtain ⟨s', hyields, -, hprints⟩ :=
        exists_makeSite hrun hplan (Eq.refl (plan.generate.run.run ⟨s.files, []⟩))
      exact ⟨_, s', yields_makeRequested hyields hexpand, hprints⟩

/-- A site that was made is answered for. -/
theorem run_generation {site : Site.Finished}
    (hmade : Yields (makeRequested c request destination) s (.ok site) s')
    (hdestination : (c.outputDir request.targetDir).expandHome s.home s.users = .ok destination) :
    (generation c request).run.run s = (answerSite s.clock site).run.run s' := by
  refine Eq.trans (run_bind_of_yields (yields_get_iff.mpr ⟨rfl, rfl⟩)) ?_
  exact (run_bind_of_yields (yields_expandHome hdestination)).trans (run_bind_of_yields hmade)

/-- A site that could not be made is answered for with the reason. -/
theorem refusal_generation (hrun : InLoggedRun sink id s) {e : Site.SiteError}
    (hdestination : (c.outputDir request.targetDir).expandHome s.home s.users = .ok destination)
    (hmade : Yields (makeRequested c request destination) s (.error e) s')
    (hprints : Prints sink id [] [] s s') : Breaks sink id (Refusal id) (generation c request) s := by
  have hrun' := hrun.of_sameRun hprints.toSameRun
  refine Breaks.of_get (Breaks.of_expandHome hdestination (Breaks.of_yields hmade hprints ?_))
  refine Breaks.of_get (breaks_emitFailure hrun' ?_)
  rw [hrun'.context]
  exact isFailure_siteFailure hrun.ne_nil _ _ e

/-- A generation that gets stuck ends without an answer. -/
theorem crash_generation (hstuck : request.Stuck c s) : Breaks sink id Crash (generation c request) s := by
  by_cases htarget : Homeless s (c.outputDir request.targetDir)
  · exact Breaks.of_get ((breaks_expandHome htarget).bind _)
  · obtain ⟨destination, hdestination⟩ := exists_expandHome htarget
    have hunknown : (Path.ofText request.sourceDir).expandHome s.home s.users = .error .unknownUser :=
      expandHome_eq_error_iff.mpr (hstuck.resolve_left htarget)
    refine Breaks.of_get (Breaks.of_expandHome hdestination (Breaks.bind (Breaks.of_get ?_) _))
    rw [hunknown]
    exact breaks_crash _ s

/-- **A generation that does not get stuck answers once.** -/
theorem answers_generation (hrun : InLoggedRun sink id s) (hstuck : ¬ request.Stuck c s) :
    Succeeds sink id (generation c request) s ∨ Breaks sink id (Refusal id) (generation c request) s := by
  obtain ⟨htarget, hsource⟩ := not_or.mp hstuck
  obtain ⟨destination, hdestination⟩ := exists_expandHome htarget
  obtain ⟨result, s', hmade, hprints⟩ := exists_makeRequested (c := c) hrun hsource destination
  cases result with
  | error e => exact Or.inr (refusal_generation hrun hdestination hmade hprints)
  | ok site =>
    obtain ⟨e, he, s'', hanswer, -, hprints'⟩ :=
      exists_answerSite (hrun.of_sameRun hprints.toSameRun) s.clock site
    exact Or.inl (Succeeds.of_run_eq (run_generation hmade hdestination) hprints
      ⟨e, s'', he, hanswer, hprints'⟩)

end Steps

/-! ### Commands -/

section Commands

variable {sink : Sink} {s s' : Session} {c : Context} {args : List Text}

/-- From `s` the run ends as `ending` says, with the answers `out` and `err` on the two outputs. All else that
it prints are records of its own run. -/
def Ends (sink : Sink) (x : Run Unit) (s : Session) (ending : Ending) (out err : List Text) : Prop :=
  ∃ result s', x.run.run s = (result, s') ∧ Ending.of result = ending ∧ Prints sink s.nextId out err s s'

/-- The run ends with one answer: that of a success, or that of a failure. -/
def AnswersOnce (sink : Sink) (x : Run Unit) (s : Session) : Prop :=
  (∃ e : Envelope, e.IsSuccess s.nextId ∧ Ends sink x s ⟨.int 0, none⟩ [e.line] []) ∨
    ∃ e : Envelope, e.IsFailure s.nextId ∧ Ends sink x s ⟨.int 1, none⟩ [] [e.line]

/-- The run ends with a fault and without an answer. -/
def GetsStuck (sink : Sink) (x : Run Unit) (s : Session) : Prop :=
  ∃ f, Ends sink x s ⟨.int 1, some f⟩ [] []

theorem Ends.of_run_eq {x y : Run Unit} {ending : Ending} {out err : List Text}
    (heq : x.run.run s = y.run.run s) (h : Ends sink y s ending out err) : Ends sink x s ending out err := by
  obtain ⟨result, s', hrun, hrest⟩ := h
  exact ⟨result, s', heq.trans hrun, hrest⟩

theorem AnswersOnce.of_run_eq {x y : Run Unit} (heq : x.run.run s = y.run.run s) (h : AnswersOnce sink y s) :
    AnswersOnce sink x s := by
  rcases h with ⟨e, he, h⟩ | ⟨e, he, h⟩
  · exact Or.inl ⟨e, he, h.of_run_eq heq⟩
  · exact Or.inr ⟨e, he, h.of_run_eq heq⟩

theorem GetsStuck.of_run_eq {x y : Run Unit} (heq : x.run.run s = y.run.run s) (h : GetsStuck sink y s) :
    GetsStuck sink x s := by
  obtain ⟨f, h⟩ := h
  exact ⟨f, h.of_run_eq heq⟩

/-- **A command is its body**, run with what the command has logged at its start: it ends in the same way,
with the same answers and the same files. -/
theorem exists_command (h : IsReady sink s) (name : Text) (body : Run Unit) :
    ∃ s₁, InLoggedRun sink s.nextId s₁ ∧ Logs sink s.nextId (s.opened name) s₁ ∧
      ∀ {result s₂ out err}, body.run.run s₁ = (result, s₂) → result ≠ .error .interrupt →
        Prints sink s.nextId out err s₁ s₂ →
        ∃ s', (asCommand name (exitOnInterrupt body)).run.run s = (result, s') ∧ s'.files = s₂.files ∧
          Prints sink s.nextId out err s s' := by
  obtain ⟨s₁, hrun, hlogs, hcommand⟩ := run_asCommand h name (exitOnInterrupt body)
  exact ⟨s₁, hrun, hlogs, fun hbody hresult hprints =>
    hcommand _ _ _ _ (run_exitOnInterrupt hbody hresult) hprints⟩

/-- A command answers as its work does, whatever it logs around that work. -/
theorem answersOnce_or_getsStuck (h : IsReady sink s) (name : Text) (body : Run Unit) :
    ∃ s₁, InLoggedRun sink s.nextId s₁ ∧ Logs sink s.nextId (s.opened name) s₁ ∧
      (Succeeds sink s.nextId body s₁ ∨ Breaks sink s.nextId (Refusal s.nextId) body s₁ →
        AnswersOnce sink (asCommand name (exitOnInterrupt body)) s) ∧
      (Breaks sink s.nextId Crash body s₁ → GetsStuck sink (asCommand name (exitOnInterrupt body)) s) := by
  obtain ⟨s₁, hrun, hlogs, hcommand⟩ := exists_command h name body
  refine ⟨s₁, hrun, hlogs, ?_, ?_⟩
  · rintro (⟨e, s₂, he, hyields, hprints⟩ | ⟨_, _, s₂, hfails, ⟨rfl, e, he, rfl⟩, hprints⟩)
    · obtain ⟨s', hends, -, hprints'⟩ := hcommand hyields (by simp) hprints
      exact Or.inl ⟨e, he, _, s', hends, rfl, hprints'⟩
    · obtain ⟨s', hends, -, hprints'⟩ := hcommand hfails (by simp) hprints
      exact Or.inr ⟨e, he, _, s', hends, rfl, hprints'⟩
  · rintro ⟨_, _, s₂, hfails, ⟨⟨f, rfl⟩, rfl⟩, hprints⟩
    obtain ⟨s', hends, -, hprints'⟩ := hcommand hfails (by simp) hprints
    exact ⟨f, _, s', hends, rfl, hprints'⟩

/-- The command that converts a file answers once, unless it gets stuck. -/
theorem answersOnce_convert (h : IsReady sink s) (r : ConvertRequest) :
    (¬ r.Stuck c s → AnswersOnce sink (convert c r) s) ∧ (r.Stuck c s → GetsStuck sink (convert c r) s) := by
  obtain ⟨s₁, hrun, ⟨printed, rfl, -⟩, hanswers, hstuck⟩ :=
    answersOnce_or_getsStuck h "convert".toList (conversion c r)
  exact ⟨fun hr => hanswers (answers_conversion hrun hr), fun hr => hstuck (crash_conversion hrun hr)⟩

/-- The command that generates a site answers once, unless it gets stuck. -/
theorem answersOnce_generate (h : IsReady sink s) (r : GenerateRequest) :
    (¬ r.Stuck c s → AnswersOnce sink (generate c r) s) ∧ (r.Stuck c s → GetsStuck sink (generate c r) s) := by
  obtain ⟨s₁, hrun, ⟨printed, rfl, -⟩, hanswers, hstuck⟩ :=
    answersOnce_or_getsStuck h "generate".toList (generation c r)
  exact ⟨fun hr => hanswers (answers_generation hrun hr), fun hr => hstuck (crash_generation hr)⟩

/-! ### Arguments and the log -/

/-- Reading the arguments of a command changes nothing. -/
structure ArgumentReader.IsPassive (reader : ArgumentReader) : Prop where
  convert : ∀ args, Reads (reader.convert args)
  generate : ∀ args, Reads (reader.generate args)

theorem reads_orUsageError {α : Type} (o : Option α) : Reads (orUsageError o) := by
  cases o with
  | none => exact reads_throw _
  | some a => exact reads_pure a

theorem reads_orRefuse {α : Type} (x : Except ArgumentError α) : Reads (orRefuse x) := by
  cases x with
  | ok a => exact reads_pure a
  | error e =>
    cases e with
    | _ => exact reads_throw _

/-- Taking arguments apart changes nothing in the session, and neither does refusing them. -/
theorem reads_parseArguments (specs : List OptionSpec) (mixed : Bool) (args : List Text) :
    Reads (parseArguments specs mixed args) := by
  refine (reads_orUsageError _).bind fun parsed => ?_
  split
  · exact (reads_throw _).bind fun _ => reads_pure parsed
  · exact reads_pure parsed

theorem reads_convertRequest (args : List Text) : Reads (convertRequest args) := by
  refine (reads_parseArguments _ _ _).bind fun parsed => reads_get.bind fun s => ?_
  refine (reads_orRefuse _).bind fun _ => ?_
  split
  · exact reads_throw _
  · refine (reads_orRefuse _).bind fun file => ?_
    split
    · exact (reads_throw _).bind fun _ => (reads_orRefuse _).bind fun _ => (reads_orRefuse _).bind fun _ =>
        reads_pure _
    · exact (reads_orRefuse _).bind fun _ => (reads_orRefuse _).bind fun _ => reads_pure _

theorem reads_generateRequest (args : List Text) : Reads (generateRequest args) := by
  refine (reads_parseArguments _ _ _).bind fun parsed => reads_get.bind fun s => ?_
  refine (reads_orRefuse _).bind fun _ => ?_
  split
  · exact reads_throw _
  · refine (reads_orRefuse _).bind fun source => (reads_orRefuse _).bind fun target => ?_
    split
    · exact (reads_throw _).bind fun _ => (reads_orRefuse _).bind fun _ => (reads_orRefuse _).bind fun _ =>
        reads_pure _
    · exact (reads_orRefuse _).bind fun _ => (reads_orRefuse _).bind fun _ => reads_pure _

/-- The reader with the options of the program changes nothing. -/
theorem ArgumentReader.isPassive_standard : ArgumentReader.standard.IsPassive :=
  ⟨reads_convertRequest, reads_generateRequest⟩

theorem reads_levelOf (level : LevelName) : Reads (levelOf level) := by
  cases level with
  | number n => exact reads_pure n
  | name text =>
    simp only [levelOf]
    split
    · exact reads_pure _
    · exact reads_throw _

/-- A session whose log was set up by a context can run commands. -/
theorem exists_isReady (hnumber : s.clock.isNaN = false) (hfinite : s.clock.isInf = false)
    (h : Yields c.setUpLog s () s') : ∃ sink, IsReady sink s' := by
  obtain ⟨sink, s₁, hsink, hrest⟩ := yields_bind_iff.mp h
  obtain ⟨-, rfl⟩ := yields_pure_iff.mp hrest
  obtain ⟨level, s₂, hlevel, hconfigured⟩ := yields_bind_iff.mp hsink
  obtain ⟨_, s₃, hset, hreturned⟩ := yields_bind_iff.mp hconfigured
  obtain rfl := (reads_levelOf _).eq_of_yields hlevel
  obtain rfl := yields_modify_iff.mp hset
  obtain ⟨-, rfl⟩ := yields_pure_iff.mp hreturned
  exact ⟨_, rfl, rfl, hnumber, hfinite⟩

/-- **Every command answers once.** Whatever the arguments are read by, in a session whose log was set up by the
context of the invocation, and whose clock shows a time, a command that converts a file or generates a site
ends in one of two ways whenever its arguments can be read. Either it ends with exit code 0, one answer of a
success on the standard output and none on the error output, or with exit code 1, one answer of a failure on
the error output and none on the standard output. Whatever else is printed are log records. They and the
answer carry the identity that the command was given.

The only exceptions are the requests that get stuck. They end with a fault and exit code 1, and without any
answer. -/
theorem runNamed_answers_once {reader : ArgumentReader} (hreader : reader.IsPassive)
    (hnumber : s.clock.isNaN = false) (hfinite : s.clock.isInf = false)
    (hlog : Yields c.setUpLog s () s') (args : List Text) :
    ∃ sink, s'.log = .live sink ∧
      (∀ r s'', Yields (reader.convert args) s' r s'' →
        (¬ r.Stuck c s' → AnswersOnce sink (runNamed reader c args .convert) s') ∧
          (r.Stuck c s' → GetsStuck sink (runNamed reader c args .convert) s')) ∧
      ∀ r s'', Yields (reader.generate args) s' r s'' →
        (¬ r.Stuck c s' → AnswersOnce sink (runNamed reader c args .generate) s') ∧
          (r.Stuck c s' → GetsStuck sink (runNamed reader c args .generate) s') := by
  obtain ⟨sink, hready⟩ := exists_isReady hnumber hfinite hlog
  refine ⟨sink, hready.log, fun r s'' hr => ?_, fun r s'' hr => ?_⟩
  · obtain rfl := (hreader.convert args).eq_of_yields hr
    exact (answersOnce_convert (c := c) hready r).imp (fun h hr' => (h hr').of_run_eq (run_bind_of_yields hr))
      fun h hr' => (h hr').of_run_eq (run_bind_of_yields hr)
  · obtain rfl := (hreader.generate args).eq_of_yields hr
    exact (answersOnce_generate (c := c) hready r).imp (fun h hr' => (h hr').of_run_eq (run_bind_of_yields hr))
      fun h hr' => (h hr').of_run_eq (run_bind_of_yields hr)

/-- A session with an empty file and a directory that lets no path through, in which nobody but the user has a
home. -/
def oneFile : Session where
  files := .dir [("a.java".toList, .file []), ("shut".toList, .dir [] { search := false })]
  cwd := .top
  home := ⟨['/'], ["home".toList]⟩
  reader := Toml.parse
  clock := 1700000000.0
  tokens := Text.ofNat

def oneFileLogged : Session := { oneFile with log := .live ⟨.info, false, true⟩ }

def convertOne (file : String) : Run Unit := runNamed .standard ⟨{}, none, none⟩ [file.toList] .convert

/-- A file that is there is answered for. A file below an unknown home is not, and neither is one in a directory
that lets no path through. -/
theorem runNamed_answers_once_oneFile :
    AnswersOnce ⟨.info, false, true⟩ (convertOne "a.java") oneFileLogged ∧
      GetsStuck ⟨.info, false, true⟩ (convertOne "./~b/a.java") oneFileLogged ∧
      GetsStuck ⟨.info, false, true⟩ (convertOne "shut/a.java") oneFileLogged := by
  have hlog : Yields (Context.setUpLog ⟨{}, none, none⟩) oneFile () oneFileLogged := rfl
  have hclock : oneFile.clock.isNaN = false ∧ oneFile.clock.isInf = false := by decide
  obtain ⟨_, hsink, hfound, -⟩ := runNamed_answers_once ArgumentReader.isPassive_standard hclock.1 hclock.2 hlog
    ["a.java".toList]
  obtain ⟨_, hsink', hunknown, -⟩ := runNamed_answers_once ArgumentReader.isPassive_standard hclock.1 hclock.2 hlog
    ["./~b/a.java".toList]
  obtain ⟨_, hsink'', hshut, -⟩ := runNamed_answers_once ArgumentReader.isPassive_standard hclock.1 hclock.2 hlog
    ["shut/a.java".toList]
  cases hsink
  cases hsink'
  cases hsink''
  refine ⟨(hfound ⟨"a.java".toList, none, none, none⟩ oneFileLogged rfl).1 ?_,
    (hunknown ⟨"./~b/a.java".toList, none, none, none⟩ oneFileLogged rfl).2 ?_,
    (hshut ⟨"shut/a.java".toList, none, none, none⟩ oneFileLogged rfl).2 ?_⟩
  · rintro (hhome | ⟨path, hpath, ⟨e, hhidden⟩ | ⟨-, -, output, houtput, -⟩⟩)
    · obtain ⟨e, he⟩ := homeless_iff.mp hhome
      cases he
    · cases hpath
      cases hhidden
    · cases houtput
  · exact Or.inl (homeless_iff.mpr ⟨.unknownUser, rfl⟩)
  · exact Or.inr ⟨⟨[], ["shut".toList, "a.java".toList]⟩, rfl, Or.inl ⟨.denied, rfl⟩⟩

end Commands

end DocMark.Command
