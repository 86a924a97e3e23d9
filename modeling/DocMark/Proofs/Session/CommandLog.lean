import DocMark.Proofs.Session.Printing

/-!
What commands log.

A command logs a message under the context of its run and at the time that the clock shows: a `LogEntry`. What a log
makes of an entry depends on nothing else (`LogState.writes`): it writes one record if it takes debug records and the
record can be written, and nothing otherwise. Logging a message of a command does exactly this
(`Session.yields_logCommand`).
-/

namespace DocMark

def Session.commandLogger : Text := Session.loggerName "cli".toList

/-! ### Entries -/

/-- A message of a command, with the context and the clock reading that it is logged under. -/
structure LogEntry where
  context : RunContext
  time : Float
  message : Text
  fields : Fields

namespace LogEntry

def record (e : LogEntry) : Record :=
  (Session.messageRecord e.time Session.commandLogger .debug e.message).withFields
    [("cli_context".toList, .obj e.fields)]

/-- A text of the context in a record. -/
def noted (t : Text) : Value := if t.isEmpty then Record.unset else .str t

def recordInContext (e : LogEntry) : Record :=
  { e.record with
    id := some (noted e.context.id)
    command := some (noted e.context.command)
    elapsed := some (.float (e.context.elapsed e.time)) }

end LogEntry

/-- What a sink prints of a record: nothing if the record cannot be written. -/
def Sink.prints (sink : Sink) (r : Record) : List Printed :=
  match sink.form r with
  | .ok text => [.record text]
  | .error _ => []

/-- What a log writes of an entry. Only sinks for debug records take messages of commands. -/
def LogState.writes (log : LogState) (e : LogEntry) : List Printed :=
  match log with
  | .live sink =>
    if sink.level ≠ 0 ∧ sink.level ≤ .debug then
      sink.prints (if sink.addContext then e.recordInContext else e.record)
    else []
  | _ => []

/-! ### Records that can be written -/

/-- The clock reading is a date of the calendar, and so is the day before. -/
def Timestamp.Dated (time : Float) : Prop :=
  ∃ t c c', Timestamp.ofClock time = .ok t ∧ t.calendar? = .ok c ∧ t.dayBefore.calendar? = .ok c'

/-- A message of texts only, without arguments and without an error. -/
structure Record.IsPlain (r : Record) (time : Float) : Prop where
  created : r.created = .float time
  level : ∃ t, r.level = .str t
  logger : ∃ t, r.logger = .str t
  message : ∃ t, r.message = .str t
  id : ∃ t, r.id.getD Record.unset = .str t
  args : r.args = .several []
  error : r.error = .value .null

/-- **A plain message with a date can be written.** -/
theorem Sink.exists_form (sink : Sink) {r : Record} {time : Float} (hdated : Timestamp.Dated time)
    (hplain : r.IsPlain time) : ∃ text, sink.form r = .ok text := by
  obtain ⟨t, c, c', ht, hc, hc'⟩ := hdated
  have htime : r.time = .ok t := by
    rw [Record.time, hplain.created]
    change (Timestamp.ofClock time).mapError RecordError.time = .ok t
    rw [ht]
    rfl
  obtain ⟨message, hmessage⟩ := hplain.message
  have hfilled : r.messageText = .ok message := by rw [Record.messageText, hmessage, hplain.args]; rfl
  have hnote : r.errorText? = .ok none := by rw [Record.errorText?, hplain.error]; rfl
  rw [Sink.form]
  by_cases hstructured : sink.structured = true
  · obtain ⟨date, hdate⟩ : ∃ date, t.iso = .ok date := by rw [Timestamp.iso, hc]; exact ⟨_, rfl⟩
    rw [if_pos hstructured, Record.structured, htime, hfilled, hnote]
    change ∃ text, (t.iso.mapError RecordError.time >>= _) = .ok text
    rw [hdate]
    exact ⟨_, rfl⟩
  · obtain ⟨date, hdate⟩ : ∃ date, t.plain = .ok date := by rw [Timestamp.plain, hc, hc']; exact ⟨_, rfl⟩
    obtain ⟨level, hlevel⟩ := hplain.level
    obtain ⟨logger, hlogger⟩ := hplain.logger
    obtain ⟨id, hid⟩ := hplain.id
    have hname : r.loggerText = .ok (Record.shortName logger) := by rw [Record.loggerText, hlogger]
    rw [if_neg hstructured, Record.human, htime, hfilled, hnote, hname, hlevel, hid]
    change ∃ text, (t.plain.mapError RecordError.time >>= _) = .ok text
    rw [hdate]
    dsimp only
    cases Record.showsId (.str id) with
    | true => exact ⟨_, rfl⟩
    | false => exact ⟨_, rfl⟩

theorem LogEntry.isPlain_record (e : LogEntry) : e.record.IsPlain e.time :=
  ⟨rfl, ⟨_, rfl⟩, ⟨_, rfl⟩, ⟨_, rfl⟩, ⟨_, rfl⟩, rfl, rfl⟩

theorem LogEntry.isPlain_recordInContext (e : LogEntry) : e.recordInContext.IsPlain e.time := by
  have hid : ∃ t, noted e.context.id = .str t := by
    unfold noted
    split
    · exact ⟨_, rfl⟩
    · exact ⟨_, rfl⟩
  exact ⟨rfl, ⟨_, rfl⟩, ⟨_, rfl⟩, ⟨_, rfl⟩, hid, rfl, rfl⟩

/-- **A log that takes debug records writes one record of an entry with a date.** -/
theorem LogState.exists_writes {sink : Sink} (hlevel : sink.level ≠ 0 ∧ sink.level ≤ .debug) {e : LogEntry}
    (hdated : Timestamp.Dated e.time) :
    ∃ text, sink.form (if sink.addContext then e.recordInContext else e.record) = .ok text ∧
      LogState.writes (.live sink) e = [.record text] := by
  have hform : ∃ text, sink.form (if sink.addContext then e.recordInContext else e.record) = .ok text := by
    split
    · exact sink.exists_form hdated e.isPlain_recordInContext
    · exact sink.exists_form hdated e.isPlain_record
  obtain ⟨text, htext⟩ := hform
  refine ⟨text, htext, ?_⟩
  rw [writes, if_pos hlevel, Sink.prints, htext]

namespace Session

/-! ### Logging -/

def printing (s : Session) (ps : List Printed) : Session := { s with stderr := s.stderr ++ ps }

theorem printing_nil (s : Session) : s.printing [] = s := by rw [printing, List.append_nil]

/-- Which logs take the messages of commands. -/
theorem not_debug_lt_threshold_iff {log : LogState} :
    ¬ Level.debug < threshold log commandLogger ↔
      ∃ sink, log = .live sink ∧ sink.level ≠ 0 ∧ sink.level ≤ .debug := by
  cases log with
  | unset => exact iff_of_false (by decide) (by simp)
  | stale => exact iff_of_false (by decide) (by simp)
  | live sink =>
    have hlogger : isBelowRoot commandLogger = true := rfl
    by_cases hzero : sink.level = 0
    · have hhigh : threshold (.live sink) commandLogger = .warning := by simp [threshold, hzero]
      rw [hhigh]
      exact iff_of_false (by decide) (by simp [hzero])
    · have hlevel : threshold (.live sink) commandLogger = sink.level := by simp [threshold, hlogger, hzero]
      simp [hlevel, hzero]

/-- A log for graver records writes nothing of a command. -/
theorem writes_eq_nil {log : LogState} (h : Level.debug < threshold log commandLogger) (e : LogEntry) :
    log.writes e = [] := by
  cases log with
  | unset => rfl
  | stale => rfl
  | live sink =>
    refine if_neg fun htakes => ?_
    exact not_debug_lt_threshold_iff.mpr ⟨sink, rfl, htakes⟩ h

/-- A sink writes an entry as the session writes its record. -/
theorem written?_eq (s : Session) (sink : Sink) (message : Text) (fields : Fields) :
    let e : LogEntry := ⟨s.context, s.clock, message, fields⟩
    s.written? sink e.record = sink.form (if sink.addContext then e.recordInContext else e.record) := rfl

/-- **Logging a message of a command** prints what the log writes of it, and does nothing else. -/
theorem yields_logCommand {s : Session} (hnumber : s.clock.isNaN = false) (hfinite : s.clock.isInf = false)
    (message : Text) {fields : Fields} (hne : fields ≠ []) :
    Yields (logCommand .debug message fields) s ()
      (s.printing (s.log.writes ⟨s.context, s.clock, message, fields⟩)) := by
  have hfield : (if fields.isEmpty then [] else [("cli_context".toList, .obj fields)] : Fields) =
      [("cli_context".toList, .obj fields)] := if_neg (by simpa using hne)
  have hfree : ∀ e ∈ ([("cli_context".toList, .obj fields)] : Fields), e.1 ∉ Record.standardFields := by
    simp [Record.standardFields]
  have hnone : Yields (pure () : Run Unit) s () (s.printing []) :=
    yields_pure_iff.mpr ⟨rfl, s.printing_nil.symm⟩
  rw [logCommand, hfield, show loggerName "cli".toList = commandLogger from rfl]
  refine yields_bind_iff.mpr ⟨s, s, yields_get_iff.mpr ⟨rfl, rfl⟩, ?_⟩
  by_cases hlow : Level.debug < threshold s.log commandLogger
  · rw [if_pos hlow, writes_eq_nil hlow]
    exact hnone
  · obtain ⟨sink, hlog, htakes⟩ := not_debug_lt_threshold_iff.mp hlow
    rw [if_neg hlow]
    refine yields_bind_iff.mpr ⟨_, s, yields_makeRecord hnumber hfinite _ _ _ hfree, ?_⟩
    have hwrites : ∀ e, s.log.writes e = sink.prints (if sink.addContext then e.recordInContext else e.record) := by
      intro e
      rw [hlog]
      exact if_pos htakes
    rw [hwrites, hlog]
    change Yields (if sink.level ≤ Level.debug then
      match s.written? sink (LogEntry.record ⟨s.context, s.clock, message, fields⟩) with
      | .ok text => print (.record text)
      | .error _ => pure ()
      else pure ()) s () _
    rw [if_pos htakes.2, written?_eq, Sink.prints]
    split
    · exact yields_modify_iff.mpr rfl
    · exact hnone

end Session

end DocMark
