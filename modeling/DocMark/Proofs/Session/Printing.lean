import DocMark.Proofs.Envelope
import DocMark.Proofs.Runs
import DocMark.Session.Output

/-!
What a session prints while a command runs.

A command prints answers to both outputs, and log records to the error output. `Session.Prints` counts the
answers and says of everything else that it is a record of the run at hand. Logging prints records only
(`Session.logs_logAs`), answering prints one answer (`Session.prints_emitSuccess`,
`Session.prints_emitFailure`), and a command prints what its body prints (`Session.run_asCommand`).
-/

namespace DocMark

def Printed.answer? : Printed → Option Text
  | .data text => some text
  | _ => none

def Sink.form (sink : Sink) (r : Record) : Except RecordError Text :=
  if sink.structured then r.structured {} else r.human {}

/-- A record of the run `id` that the sink has written. -/
def Sink.Wrote (sink : Sink) (id : Text) (p : Printed) : Prop :=
  ∃ r text, r.id = some (.str id) ∧ sink.form r = .ok text ∧ p = .record text

theorem Sink.Wrote.answer?_eq_none {sink : Sink} {id : Text} {p : Printed} (h : sink.Wrote id p) :
    p.answer? = none := by
  obtain ⟨_, _, -, -, rfl⟩ := h
  rfl

namespace Session

variable {sink : Sink} {id : Text} {s s' s'' : Session}

/-! ### Log records -/

/-- From `s` to `s'` nothing happened but that records of the run `id` were written. -/
def Logs (sink : Sink) (id : Text) (s s' : Session) : Prop :=
  ∃ printed, s' = { s with stderr := s.stderr ++ printed } ∧ ∀ p ∈ printed, sink.Wrote id p

theorem Logs.refl (s : Session) : Logs sink id s s := ⟨[], by simp, by simp⟩

theorem Logs.trans (h : Logs sink id s s') (h' : Logs sink id s' s'') : Logs sink id s s'' := by
  obtain ⟨printed, rfl, hprinted⟩ := h
  obtain ⟨printed', rfl, hprinted'⟩ := h'
  exact ⟨printed ++ printed', by simp, List.forall_mem_append.mpr ⟨hprinted, hprinted'⟩⟩

/-- The session is in the run `id`, and its log takes records that name the run. -/
structure InLoggedRun (sink : Sink) (id : Text) (s : Session) : Prop where
  log : s.log = .live sink
  addContext : sink.addContext = true
  context : s.context.id = id
  ne_nil : id ≠ []
  number : s.clock.isNaN = false
  finite : s.clock.isInf = false

theorem InLoggedRun.of_logs (h : InLoggedRun sink id s) (hlogs : Logs sink id s s') :
    InLoggedRun sink id s' := by
  obtain ⟨_, rfl, -⟩ := hlogs
  exact ⟨h.log, h.addContext, h.context, h.ne_nil, h.number, h.finite⟩

/-- A record in a run gets the identity of the run. -/
theorem InLoggedRun.id_addContext (h : InLoggedRun sink id s) (r : Record) :
    (s.addContext r).id = some (.str id) := by
  have hnonempty : id.isEmpty = false := List.isEmpty_eq_false_iff.mpr h.ne_nil
  simp [Session.addContext, h.context, hnonempty]

def messageRecord (time : Float) (logger : Text) (level : Level) (message : Text) : Record where
  created := .float time
  level := .str level.name
  logger := .str logger
  message := .str message

/-- A record can be made of every message whose fields hide no standard one, while the clock shows a time. -/
theorem yields_makeRecord (hnumber : s.clock.isNaN = false) (hfinite : s.clock.isInf = false) (logger : Text)
    (level : Level) (message : Text) {fields : Fields} (hfields : ∀ e ∈ fields, e.1 ∉ Record.standardFields) :
    Yields (makeRecord logger level message fields) s
      ((messageRecord s.clock logger level message).withFields fields) s := by
  refine yields_bind_iff.mpr ⟨s, s, yields_get_iff.mpr ⟨rfl, rfl⟩, ?_⟩
  rw [hnumber, hfinite, List.find?_eq_none.mpr fun e he => by simpa using hfields e he]
  exact yields_pure_iff.mpr ⟨rfl, rfl⟩

/-- **Logging writes records of the run and does nothing else.** -/
theorem logs_logAs (h : InLoggedRun sink id s) {logger : Text} (hlogger : isBelowRoot logger = true)
    (level : Level) (message : Text) {fields : Fields} (hfields : ∀ e ∈ fields, e.1 ∉ Record.standardFields) :
    ∃ s', Yields (logAs logger level message fields) s () s' ∧ Logs sink id s s' := by
  refine exists_yields_bind (yields_get_iff.mpr ⟨rfl, rfl⟩) ?_
  by_cases hlow : level < threshold s.log logger
  · rw [if_pos hlow]
    exact ⟨s, yields_pure_iff.mpr ⟨rfl, rfl⟩, Logs.refl s⟩
  · rw [if_neg hlow]
    refine exists_yields_bind (yields_makeRecord h.number h.finite logger level message hfields) ?_
    generalize (messageRecord s.clock logger level message).withFields fields = r
    simp only [h.log, hlogger]
    split
    · have hwritten : s.written? sink r = sink.form (s.addContext r) := by
        simp [written?, Sink.form, h.addContext]
      rw [hwritten]
      cases hform : sink.form (s.addContext r) with
      | ok text =>
        refine ⟨_, yields_modify_iff.mpr rfl, [.record text], rfl, ?_⟩
        exact List.forall_mem_singleton.mpr ⟨_, text, h.id_addContext r, hform, rfl⟩
      | error e => exact ⟨s, yields_pure_iff.mpr ⟨rfl, rfl⟩, Logs.refl s⟩
    · exact ⟨s, yields_pure_iff.mpr ⟨rfl, rfl⟩, Logs.refl s⟩

theorem isBelowRoot_name (c : Channel) : isBelowRoot c.name = true := by
  cases c with
  | _ => rfl

/-- Events of a run are logged with its identity. -/
theorem logs_logEvents (h : InLoggedRun sink id s) (es : List Event) :
    ∃ s', Yields (logEvents es) s () s' ∧ Logs sink id s s' := by
  induction es generalizing s with
  | nil => exact ⟨s, yields_pure_iff.mpr ⟨rfl, rfl⟩, Logs.refl s⟩
  | cons e es ih =>
    obtain ⟨s₁, hfirst, hlogs⟩ := logs_logAs h (isBelowRoot_name e.channel) e.level e.message
      (List.forall_mem_nil _)
    obtain ⟨s₂, hrest, hlogs'⟩ := ih (h.of_logs hlogs)
    exact ⟨s₂, yields_bind_iff.mpr ⟨(), s₁, hfirst, hrest⟩, hlogs.trans hlogs'⟩

theorem logs_logCommand (h : InLoggedRun sink id s) (level : Level) (message : Text) (fields : Fields) :
    ∃ s', Yields (logCommand level message fields) s () s' ∧ Logs sink id s s' := by
  refine logs_logAs h rfl level message fun e he => ?_
  split at he
  · cases he
  · obtain rfl := List.mem_singleton.mp he
    simp [Record.standardFields]

/-! ### Answers -/

/-- What the steps of a run leave as it is. -/
structure SameRun (s s' : Session) : Prop where
  cwd : s'.cwd = s.cwd
  home : s'.home = s.home
  users : s'.users = s.users
  clock : s'.clock = s.clock
  log : s'.log = s.log
  context : s'.context = s.context

theorem SameRun.refl (s : Session) : SameRun s s := ⟨rfl, rfl, rfl, rfl, rfl, rfl⟩

theorem SameRun.trans (h : SameRun s s') (h' : SameRun s' s'') : SameRun s s'' :=
  ⟨h'.cwd.trans h.cwd, h'.home.trans h.home, h'.users.trans h.users, h'.clock.trans h.clock,
    h'.log.trans h.log, h'.context.trans h.context⟩

/-- From `s` to `s'` the answers `out` were printed to the standard output and the answers `err` to the error
output. All else that was printed are records of the run `id`. -/
structure Prints (sink : Sink) (id : Text) (out err : List Text) (s s' : Session) : Prop
    extends SameRun s s' where
  stdout : s'.stdout = s.stdout ++ out
  stderr : ∃ printed, s'.stderr = s.stderr ++ printed ∧ printed.filterMap Printed.answer? = err ∧
    ∀ p ∈ printed, p.answer? = none → sink.Wrote id p

theorem Prints.refl (s : Session) : Prints sink id [] [] s s :=
  ⟨SameRun.refl s, by simp, [], by simp, rfl, by simp⟩

/-- The answers of one step stand before those of the next. -/
theorem Prints.trans {out out' err err' : List Text} (h : Prints sink id out err s s')
    (h' : Prints sink id out' err' s' s'') : Prints sink id (out ++ out') (err ++ err') s s'' := by
  obtain ⟨printed, heq, hanswers, hwrote⟩ := h.stderr
  obtain ⟨printed', heq', hanswers', hwrote'⟩ := h'.stderr
  refine ⟨h.toSameRun.trans h'.toSameRun, ?_, printed ++ printed', ?_, ?_,
    List.forall_mem_append.mpr ⟨hwrote, hwrote'⟩⟩
  · rw [h'.stdout, h.stdout, List.append_assoc]
  · rw [heq', heq, List.append_assoc]
  · rw [List.filterMap_append, hanswers, hanswers']

theorem Logs.sameRun (h : Logs sink id s s') : SameRun s s' := by
  obtain ⟨_, rfl, -⟩ := h
  exact ⟨rfl, rfl, rfl, rfl, rfl, rfl⟩

theorem Logs.files (h : Logs sink id s s') : s'.files = s.files := by
  obtain ⟨_, rfl, -⟩ := h
  rfl

theorem Logs.prints (h : Logs sink id s s') : Prints sink id [] [] s s' := by
  obtain ⟨printed, rfl, hwrote⟩ := h
  refine ⟨⟨rfl, rfl, rfl, rfl, rfl, rfl⟩, by simp, printed, rfl, ?_, fun p hp _ => hwrote p hp⟩
  exact List.filterMap_eq_nil_iff.mpr fun p hp => (hwrote p hp).answer?_eq_none

/-- Other files print nothing. -/
theorem prints_files (s : Session) (files : FileTree) : Prints sink id [] [] s { s with files } :=
  ⟨⟨rfl, rfl, rfl, rfl, rfl, rfl⟩, by simp, [], by simp, rfl, by simp⟩

theorem InLoggedRun.of_sameRun (h : InLoggedRun sink id s) (hsame : SameRun s s') : InLoggedRun sink id s' :=
  ⟨hsame.log.trans h.log, h.addContext, by rw [hsame.context, h.context], h.ne_nil,
    by rw [hsame.clock, h.number], by rw [hsame.clock, h.finite]⟩

/-- Asked for its identity, a run gives its own. -/
theorem InLoggedRun.yields_requestId (h : InLoggedRun sink id s) : Yields requestId s id s := by
  refine yields_bind_iff.mpr ⟨s, s, yields_get_iff.mpr ⟨rfl, rfl⟩, ?_⟩
  rw [h.context]
  cases id with
  | nil => exact absurd rfl h.ne_nil
  | cons c r => exact yields_pure_iff.mpr ⟨rfl, rfl⟩

def successOf (id : Text) (fields : Fields) (d : Envelope.Details) : Envelope :=
  Envelope.ofSuccess id fields [] { d with requestId := some id }

theorem yields_emitSuccess (h : InLoggedRun sink id s) (fields : Fields) (d : Envelope.Details) :
    Yields (emitSuccess (.obj fields) d) s ()
      { s with stdout := s.stdout ++ [(successOf id fields d).line] } := by
  refine yields_bind_iff.mpr ⟨id, s, h.yields_requestId, ?_⟩
  refine yields_bind_iff.mpr ⟨s, s, yields_get_iff.mpr ⟨rfl, rfl⟩, ?_⟩
  rw [h.context]
  exact yields_modify_iff.mpr rfl

theorem fails_emitFailure {α : Type} (h : InLoggedRun sink id s) (e : Envelope) :
    Fails (emitFailure e : Run α) s (.exit (.int 1))
      { s with stderr := s.stderr ++ [.data (e.withRequestId id).line] } := by
  refine fails_bind_iff.mpr (Or.inr ⟨id, s, h.yields_requestId, ?_⟩)
  refine fails_bind_iff.mpr (Or.inr ⟨(), _, yields_modify_iff.mpr rfl, ?_⟩)
  exact fails_throw_iff.mpr ⟨rfl, rfl⟩

/-- A success is one answer on the standard output. -/
theorem prints_emitSuccess (s : Session) (e : Envelope) :
    Prints sink id [e.line] [] s { s with stdout := s.stdout ++ [e.line] } :=
  ⟨⟨rfl, rfl, rfl, rfl, rfl, rfl⟩, rfl, [], by simp, rfl, by simp⟩

/-- A failure is one answer on the error output. -/
theorem prints_emitFailure (s : Session) (e : Envelope) :
    Prints sink id [] [e.line] s { s with stderr := s.stderr ++ [.data e.line] } :=
  ⟨⟨rfl, rfl, rfl, rfl, rfl, rfl⟩, by simp, [.data e.line], rfl, rfl, by simp [Printed.answer?]⟩

/-! ### Commands -/

def nextId (s : Session) : Text := commandWord ++ '_' :: s.tokens s.issued

def opened (s : Session) (name : Text) : Session :=
  { s with issued := s.issued + 1, context := ⟨s.nextId, name, s.clock⟩ }

/-- The session can run a command: its log names runs, and its clock shows a time. -/
structure IsReady (sink : Sink) (s : Session) : Prop where
  log : s.log = .live sink
  addContext : sink.addContext = true
  number : s.clock.isNaN = false
  finite : s.clock.isInf = false

/-- **A command ends as its body does, and prints what its body prints.** The body is run in a run of its own,
and the records around it belong to this run too. -/
theorem run_asCommand {α : Type} (h : IsReady sink s) (name : Text) (body : Run α) :
    ∃ s₁, InLoggedRun sink s.nextId s₁ ∧ Logs sink s.nextId (s.opened name) s₁ ∧
      ∀ r s₂ out err, body.run.run s₁ = (r, s₂) → Prints sink s.nextId out err s₁ s₂ →
        ∃ s', (asCommand name body).run.run s = (r, s') ∧ s'.files = s₂.files ∧
          Prints sink s.nextId out err s s' := by
  have hopen : Yields (openRun commandWord none (some name)) s s.context (s.opened name) := rfl
  have hin : InLoggedRun sink s.nextId (s.opened name) :=
    ⟨h.log, h.addContext, rfl, by simp [nextId], h.number, h.finite⟩
  obtain ⟨s₁, hstart, hlogs⟩ := logs_logCommand hin .debug ("CLI command started: ".toList ++ name)
    [("command".toList, .str name)]
  refine ⟨s₁, hin.of_logs hlogs, hlogs, fun r s₂ out err hbody hprints => ?_⟩
  have hin₂ := (hin.of_logs hlogs).of_sameRun hprints.toSameRun
  obtain ⟨s₃, hend, hlogs₃⟩ := logs_logCommand hin₂ .debug ("CLI command completed: ".toList ++ name)
    [("command".toList, .str name), ("success".toList, .bool (outcome r).1),
      ("duration_ms".toList, .float (s₂.context.elapsed s₂.clock)),
      ("error".toList, Envelope.textOrNull (outcome r).2)]
  have hall : Prints sink s.nextId out err (s.opened name) s₃ := by
    simpa using (hlogs.prints.trans hprints).trans hlogs₃.prints
  refine ⟨{ s₃ with context := s.context }, ?_, hlogs₃.files,
    ⟨hall.cwd, hall.home, hall.users, hall.clock, hall.log, rfl⟩, hall.stdout, hall.stderr⟩
  refine (run_bind_of_yields hopen).trans ?_
  refine (run_bind_of_yields (@yields_lift _ _ _ _ _ s₃ r ?_)).trans rfl
  refine (run_bind_of_yields hstart).trans ((run_bind_of_yields (yields_lift hbody)).trans ?_)
  exact (run_bind_of_yields (yields_get_iff.mpr ⟨rfl, rfl⟩)).trans ((run_bind_of_yields hend).trans rfl)

/-- A body that is not interrupted ends as it does. -/
theorem run_exitOnInterrupt {α : Type} {body : Run α} {r : Except Halt α} (h : body.run.run s = (r, s'))
    (hr : r ≠ .error .interrupt) : (exitOnInterrupt body).run.run s = (r, s') := by
  refine (run_bind_of_yields (yields_lift h)).trans ?_
  cases r with
  | ok a => rfl
  | error e =>
    cases e with
    | interrupt => exact absurd rfl hr
    | _ => rfl

end Session

end DocMark
