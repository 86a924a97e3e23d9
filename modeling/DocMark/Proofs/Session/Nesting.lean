import DocMark.Proofs.Session.CommandLog

/-!
Nested runs.

Plain runs, runs with an identity of a command and commands can be nested in any way, and each of them can end with a
fault or an exit. A `Script` is a finite tree of such blocks. Running it (`Script.exec`) changes and restores the
context of the session. Its `Script.course` says what has to happen and restores nothing: what stands in a block is
followed under the context of the block, and what stands behind the block under the context around it.

* `follows_exec`: a script runs as its course says.
* `balanced_course`: all that is seen or logged in a course belongs to the innermost open run.
* `accounts_course`: what is logged in a course are the entries of the calls of commands.

Main statement: `runs_nest`.
-/

namespace DocMark.Session

/-! ### Scripts -/

/-- A clock reading that is a time. -/
structure Instant where
  value : Float
  number : value.isNaN = false
  finite : value.isInf = false

inductive Ending where
  | returned
  | failed (fault : Fault)
  | exited (code : Value)

/-- Work in a run of its own. -/
inductive Block where
  /-- A plain run. -/
  | plain (id name : Option Text)
  /-- A run with an identity of a command. -/
  | labelled (id name : Option Text)
  /-- A call of a command. -/
  | command (name : Text)

/-- A finite tree of blocks, with what happens between them. -/
inductive Script where
  /-- The work ends here. -/
  | stop (ending : Ending)
  /-- Look at the context of the current run, and go on. -/
  | look (rest : Script)
  /-- Go on when the clock shows the given time. -/
  | wait (now : Instant) (rest : Script)
  /-- Work in a block, and go on behind it. A fault or an exit that is not `caught` ends the work around it too. -/
  | block (b : Block) (body : Script) (caught : Bool) (rest : Script)

def Ending.result : Ending → Except Halt Unit
  | .returned => .ok ()
  | .failed fault => .error (.crash fault)
  | .exited code => .error (.exit code)

def Block.around : Block → Run Unit → Run Unit
  | .plain id name, body => inRun runWord id name body
  | .labelled id name, body => inRun commandWord id name body
  | .command name, body => asCommand name body

/-- Do some work, and catch what ends it early if it is to be caught. -/
def guarded (caught : Bool) (body : Run Unit) : Run Unit :=
  if caught then tryCatch body fun _ => pure () else body

/-- Run a script. A look prints what `shown` makes of the context, whatever this is. -/
def Script.exec (shown : RunContext → Text) : Script → Run Unit
  | .stop ending => ExceptT.mk (pure ending.result)
  | .look rest => do
    modify fun s => { s with stdout := s.stdout ++ [shown s.context] }
    rest.exec shown
  | .wait now rest => do
    modify fun s => { s with clock := now.value }
    rest.exec shown
  | .block b body caught rest => do
    guarded caught (b.around (body.exec shown))
    rest.exec shown

/-! ### Endings -/

namespace Ending

/-- The work returned, or it exited with no code or with zero. -/
def Succeeds : Ending → Prop
  | .returned => True
  | .failed _ => False
  | .exited code => code = .null ∨ code = .bool false ∨ code = .int 0 ∨ ∃ f, code = .float f ∧ (f == 0.0) = true

def error : Ending → Value
  | .failed fault => .str fault.message
  | _ => .null

theorem isSuccess_iff {code : Value} : isSuccess code = true ↔ (Ending.exited code).Succeeds := by
  cases code with
  | _ => simp [isSuccess, Succeeds]

theorem success_iff (e : Ending) : (outcome e.result).1 = true ↔ e.Succeeds := by
  cases e with
  | returned => exact iff_of_true rfl trivial
  | failed fault => exact iff_of_false Bool.false_ne_true id
  | exited code => exact isSuccess_iff

instance : DecidablePred Succeeds := fun e => decidable_of_iff _ e.success_iff

theorem outcome_eq (e : Ending) : (outcome e.result).1 = decide e.Succeeds := by
  rw [Bool.eq_iff_iff, success_iff, decide_eq_true_iff]

theorem error_eq (e : Ending) : Envelope.textOrNull (outcome e.result).2 = e.error := by
  cases e with
  | _ => rfl

/-- Whether what stands behind work with this end is still done. -/
def goesOn (caught : Bool) : Ending → Bool
  | .returned => true
  | _ => caught

end Ending

/-! ### The course of a script -/

/-- The identity of a run, and the number of identities given out with it. One that is missing or empty is given out
anew. -/
def identity (tokens : Nat → Text) (word : Text) (id : Option Text) (issued : Nat) : Text × Nat :=
  match id with
  | some (c :: r) => (c :: r, issued)
  | _ => (word ++ '_' :: tokens issued, issued + 1)

namespace Block

def word : Block → Text
  | .plain _ _ => runWord
  | _ => commandWord

def id? : Block → Option Text
  | .plain id _ => id
  | .labelled id _ => id
  | .command _ => none

def name? : Block → Option Text
  | .plain _ name => name
  | .labelled _ name => name
  | .command name => some name

def issued (b : Block) (tokens : Nat → Text) (n : Nat) : Nat := (identity tokens b.word b.id? n).2

def context (b : Block) (tokens : Nat → Text) (n : Nat) (now : Float) : RunContext :=
  ⟨(identity tokens b.word b.id? n).1, b.name?.getD [], now⟩

end Block

/-- A call of a command: the context of its run, when it started, and when and how it ended. -/
structure Call where
  name : Text
  context : RunContext
  start : Float
  stop : Float
  ending : Ending

namespace Call

def started (c : Call) : LogEntry where
  context := c.context
  time := c.start
  message := "CLI command started: ".toList ++ c.name
  fields := [("command".toList, .str c.name)]

def completed (c : Call) : LogEntry where
  context := c.context
  time := c.stop
  message := "CLI command completed: ".toList ++ c.name
  fields := [("command".toList, .str c.name), ("success".toList, .bool (decide c.ending.Succeeds)),
    ("duration_ms".toList, .float (c.context.elapsed c.stop)), ("error".toList, c.ending.error)]

def entries (c : Call) : List LogEntry := [c.started, c.completed]

end Call

/-- What can happen in a course. -/
inductive Moment where
  /-- A run with this context is opened. -/
  | opened (c : RunContext)
  /-- This context is seen. -/
  | seen (c : RunContext)
  | logged (e : LogEntry)
  /-- The innermost run is closed. -/
  | closed

def Moment.seen? : Moment → Option RunContext
  | .seen c => some c
  | _ => none

def Moment.logged? : Moment → Option LogEntry
  | .logged e => some e
  | _ => none

/-- What happens in a script from its start to its end. -/
structure Course where
  moments : List Moment
  /-- The calls of commands. -/
  calls : List Call
  ending : Ending
  /-- The number of identities given out in the end. -/
  issued : Nat
  /-- The clock reading in the end. -/
  clock : Instant

namespace Course

def seen (r : Course) : List RunContext := r.moments.filterMap Moment.seen?

def logged (r : Course) : List LogEntry := r.moments.filterMap Moment.logged?

/-- The course of work that is reported as a call. -/
def reported (r : Course) (c : Call) : Course :=
  { r with
    moments := .logged c.started :: r.moments ++ [.logged c.completed]
    calls := c :: r.calls }

/-- The course of work in a run. -/
def enclosed (r : Course) (own : RunContext) : Course := { r with moments := .opened own :: r.moments ++ [.closed] }

/-- A course and what follows it, if it does not end the work around it. -/
def andThen (caught : Bool) (r next : Course) : Course :=
  if r.ending.goesOn caught then { next with moments := r.moments ++ next.moments, calls := r.calls ++ next.calls }
  else r

variable (r : Course)

@[simp] theorem seen_reported (c : Call) : (r.reported c).seen = r.seen := by
  simp [seen, reported, List.filterMap_cons, Moment.seen?]

@[simp] theorem logged_reported (c : Call) : (r.reported c).logged = c.started :: r.logged ++ [c.completed] := by
  simp [logged, reported, Moment.logged?]

@[simp] theorem seen_enclosed (own : RunContext) : (r.enclosed own).seen = r.seen := by
  simp [seen, enclosed, List.filterMap_cons, Moment.seen?]

@[simp] theorem logged_enclosed (own : RunContext) : (r.enclosed own).logged = r.logged := by
  simp [logged, enclosed, List.filterMap_cons, Moment.logged?]

end Course

/-- A course for every supply of tokens, context to start in, number of identities given out and clock reading. -/
abbrev Plan := (Nat → Text) → RunContext → Nat → Instant → Course

namespace Plan

/-- Commands are reported as calls. -/
def reported (b : Block) (p : Plan) : Plan := fun tokens own issued now =>
  let r := p tokens own issued now
  match b with
  | .command name => r.reported ⟨name, own, now.value, r.clock.value, r.ending⟩
  | _ => r

/-- Work in a block goes on under the context of the block. -/
def within (b : Block) (p : Plan) : Plan := fun tokens _ issued now =>
  let own := b.context tokens issued now.value
  (p.reported b tokens own (b.issued tokens issued) now).enclosed own

/-- What stands behind some work goes on under the context that was there before. -/
def andThen (caught : Bool) (p q : Plan) : Plan := fun tokens around issued now =>
  let r := p tokens around issued now
  r.andThen caught (q tokens around r.issued r.clock)

end Plan

/-- **The course of a script.** -/
def Script.course : Script → Plan
  | .stop ending, _, _, issued, now => ⟨[], [], ending, issued, now⟩
  | .look rest, tokens, around, issued, now =>
    let r := rest.course tokens around issued now
    { r with moments := .seen around :: r.moments }
  | .wait now rest, tokens, around, issued, _ => rest.course tokens around issued now
  | .block b body caught rest, tokens, around, issued, now =>
    Plan.andThen caught (.within b body.course) rest.course tokens around issued now

/-! ### Scripts run as their courses say -/

/-- The session behind a course. Its context is what it was. -/
def after (s : Session) (shown : RunContext → Text) (r : Course) : Session :=
  { s with
    issued := r.issued
    clock := r.clock.value
    stdout := s.stdout ++ r.seen.map shown
    stderr := s.stderr ++ r.logged.flatMap s.log.writes }

/-- From every session, work runs as its plan says. -/
def Follows (shown : RunContext → Text) (x : Run Unit) (p : Plan) : Prop :=
  ∀ (s : Session) (now : Instant), s.clock = now.value →
    x.run.run s = ((p s.tokens s.context s.issued now).ending.result, s.after shown (p s.tokens s.context s.issued now))

def inside (s : Session) (own : RunContext) (issued : Nat) : Session := { s with context := own, issued := issued }

/-- A reported call prints its entry at the start, what the work prints, and its entry at the end. -/
theorem after_reported (s : Session) (shown : RunContext → Text) (r : Course) (c : Call) :
    s.after shown (r.reported c) =
      ((s.printing (s.log.writes c.started)).after shown r).printing (s.log.writes c.completed) := by
  have hstderr : s.stderr ++ (r.reported c).logged.flatMap s.log.writes =
      s.stderr ++ s.log.writes c.started ++ r.logged.flatMap s.log.writes ++ s.log.writes c.completed := by simp
  rw [after, hstderr, r.seen_reported]
  rfl

theorem context_after_inside (s : Session) (shown : RunContext → Text) (own : RunContext) (n : Nat) (r : Course) :
    { (s.inside own n).after shown r with context := s.context } = s.after shown (r.enclosed own) := by
  rw [after, after, r.seen_enclosed, r.logged_enclosed]
  rfl

/-- One course behind another is one course. -/
theorem after_after (s : Session) (shown : RunContext → Text) (r next : Course) :
    (s.after shown r).after shown next =
      s.after shown { next with moments := r.moments ++ next.moments, calls := r.calls ++ next.calls } := by
  simp [after, Course.seen, Course.logged]

theorem after_look (s : Session) (shown : RunContext → Text) (r : Course) :
    ({ s with stdout := s.stdout ++ [shown s.context] } : Session).after shown r =
      s.after shown { r with moments := .seen s.context :: r.moments } := by
  simp [after, Course.seen, Course.logged, List.filterMap_cons, Moment.seen?, Moment.logged?]

/-- A run is opened with its identity, its command and the time. -/
theorem yields_openRun (word : Text) (id name : Option Text) (s : Session) :
    Yields (openRun word id name) s s.context
      (s.inside ⟨(identity s.tokens word id s.issued).1, name.getD [], s.clock⟩
        (identity s.tokens word id s.issued).2) := by
  cases id with
  | none => rfl
  | some id =>
    cases id with
    | nil => rfl
    | cons c r => rfl

/-- **Work in a run.** The session is inside of the run while the work lasts, and in the end its context is what it
was. -/
theorem run_inRun {word : Text} {id name : Option Text} {body : Run Unit} {s s' : Session}
    {result : Except Halt Unit}
    (h : body.run.run (s.inside ⟨(identity s.tokens word id s.issued).1, name.getD [], s.clock⟩
        (identity s.tokens word id s.issued).2) =
      (result, s')) :
    (inRun word id name body).run.run s = (result, { s' with context := s.context }) :=
  (run_bind_of_yields (yields_openRun word id name s)).trans ((run_bind_of_yields (yields_lift h)).trans rfl)

/-- What is done inside of the run of a block: a command reports what it does. -/
def Block.work : Block → Run Unit → Run Unit
  | .command name, body => do
    logCommand .debug ("CLI command started: ".toList ++ name) [("command".toList, .str name)]
    let result ← ExceptT.lift body.run
    let s ← get
    logCommand .debug ("CLI command completed: ".toList ++ name)
      [("command".toList, .str name), ("success".toList, .bool (outcome result).1),
        ("duration_ms".toList, .float (s.context.elapsed s.clock)),
        ("error".toList, Envelope.textOrNull (outcome result).2)]
    ExceptT.mk (pure result)
  | _, body => body

theorem Block.around_eq (b : Block) (body : Run Unit) : b.around body = inRun b.word b.id? b.name? (b.work body) := by
  cases b with
  | _ => rfl

/-- On leaving a block the context is what it was on entering, whatever the work in it was and however it ended. -/
theorem context_around (b : Block) (body : Run Unit) (s : Session) :
    ((b.around body).run.run s).2.context = s.context := by
  rcases hwork : (b.work body).run.run
    (s.inside (b.context s.tokens s.issued s.clock) (b.issued s.tokens s.issued)) with ⟨result, s'⟩
  rw [b.around_eq, run_inRun hwork]

/-- An entry is logged under its own context and at its own time. -/
theorem yields_logEntry {s : Session} {e : LogEntry} (hcontext : e.context = s.context) (now : Instant)
    (hnow : s.clock = now.value) (htime : e.time = now.value) (hne : e.fields ≠ []) :
    Yields (logCommand .debug e.message e.fields) s () (s.printing (s.log.writes e)) := by
  obtain ⟨context, time, message, fields⟩ := e
  obtain rfl : context = s.context := hcontext
  obtain rfl : time = s.clock := htime.trans hnow.symm
  exact yields_logCommand (hnow ▸ now.number) (hnow ▸ now.finite) message hne

section Follows

variable {shown : RunContext → Text} {x y : Run Unit} {p q : Plan}

theorem follows_stop (ending : Ending) :
    Follows shown (ExceptT.mk (pure ending.result)) (Script.stop ending).course := by
  intro s now hnow
  change (ending.result, s) = (ending.result, _)
  simp [after, Script.course, Course.seen, Course.logged, ← hnow]

/-- Work that is reported follows the reported plan. -/
theorem Follows.work (h : Follows shown x p) (b : Block) : Follows shown (b.work x) (p.reported b) := by
  cases b with
  | plain id name => exact h
  | labelled id name => exact h
  | command name =>
    intro s now hnow
    let r := p s.tokens s.context s.issued now
    let call : Call := ⟨name, s.context, now.value, r.clock.value, r.ending⟩
    let s₁ := s.printing (s.log.writes call.started)
    let s₂ := s₁.after shown r
    have hstart := yields_logEntry (s := s) (e := call.started) rfl now hnow rfl (List.cons_ne_nil _ _)
    have hbody : x.run.run s₁ = (r.ending.result, s₂) := h s₁ now hnow
    have hend : Yields (logCommand .debug call.completed.message call.completed.fields) s₂ ()
        (s.after shown (r.reported call)) := by
      rw [s.after_reported]
      exact yields_logEntry rfl r.clock rfl rfl (List.cons_ne_nil _ _)
    refine (run_bind_of_yields hstart).trans ((run_bind_of_yields (yields_lift hbody)).trans ?_)
    refine (run_bind_of_yields (yields_get_iff.mpr ⟨rfl, rfl⟩)).trans ?_
    rw [Ending.outcome_eq, Ending.error_eq]
    exact (run_bind_of_yields hend).trans rfl

/-- Work in a block follows the plan within the block, and the context around it is restored. -/
theorem Follows.around (h : Follows shown x p) (b : Block) : Follows shown (b.around x) (.within b p) := by
  intro s now hnow
  have hwork := h.work b (s.inside (b.context s.tokens s.issued now.value) (b.issued s.tokens s.issued)) now hnow
  rw [← hnow] at hwork
  rw [b.around_eq, run_inRun hwork, s.context_after_inside, hnow]
  rfl

/-- Guarded work ends as it did, unless that is caught. -/
theorem run_guarded {s s' : Session} {e : Ending} (h : x.run.run s = (e.result, s')) (caught : Bool) :
    (guarded caught x).run.run s = (if e.goesOn caught then .ok () else e.result, s') := by
  cases caught with
  | false =>
    cases e with
    | _ => exact h
  | true =>
    rw [guarded, if_pos rfl, run_tryCatch, h]
    cases e with
    | _ => rfl

/-- What stands behind some work is done unless the work ends what is around it. -/
theorem Follows.andThen (hx : Follows shown x p) (hy : Follows shown y q) (caught : Bool) :
    Follows shown (do guarded caught x; y) (.andThen caught p q) := by
  intro s now hnow
  let r := p s.tokens s.context s.issued now
  let next := q s.tokens s.context r.issued r.clock
  have hguarded := run_guarded (hx s now hnow) caught
  by_cases hgo : r.ending.goesOn caught = true
  · rw [if_pos hgo] at hguarded
    have hplan : Plan.andThen caught p q s.tokens s.context s.issued now = _ := if_pos hgo
    rw [hplan, run_bind_of_yields hguarded, hy (s.after shown r) r.clock rfl]
    exact congrArg (Prod.mk next.ending.result) (s.after_after shown r next)
  · rw [if_neg hgo] at hguarded
    have hplan : Plan.andThen caught p q s.tokens s.context s.issued now = r := if_neg hgo
    rw [hplan, run_bind, hguarded]
    cases hend : r.ending with
    | returned => exact absurd (by rw [hend]; rfl) hgo
    | failed fault => rfl
    | exited code => rfl

end Follows

/-- **A script runs as its course says.** -/
theorem follows_exec (shown : RunContext → Text) (script : Script) :
    Follows shown (script.exec shown) script.course := by
  -- By induction on the tree. The session is arbitrary, since a body starts in another one than the script around it.
  induction script with
  | stop ending => exact follows_stop ending
  | look rest ih =>
    intro s now hnow
    have hrest := ih { s with stdout := s.stdout ++ [shown s.context] } now hnow
    rw [s.after_look] at hrest
    exact (run_bind_of_yields (a := ⟨⟩) (yields_modify_iff.mpr rfl)).trans hrest
  | wait time rest ih =>
    intro s now hnow
    exact (run_bind_of_yields (a := ⟨⟩) (yields_modify_iff.mpr rfl)).trans (ih _ time rfl)
  | block b body caught rest ihbody ihrest => exact (ihbody.around b).andThen ihrest caught

/-! ### Discipline -/

namespace Moment

/-- The contexts of the open runs behind a moment, the innermost first. -/
def step (stack : List RunContext) : Moment → List RunContext
  | .opened c => c :: stack
  | .closed => stack.tail
  | _ => stack

/-- What is seen or logged is of the innermost open run. -/
def Belongs (stack : List RunContext) : Moment → Prop
  | .seen c => stack.head? = some c
  | .logged e => stack.head? = some e.context
  | _ => True

end Moment

/-- Every moment belongs to the runs that are open then. -/
def Disciplined : List RunContext → List Moment → Prop
  | _, [] => True
  | stack, m :: ms => m.Belongs stack ∧ Disciplined (m.step stack) ms

/-- Every moment belongs to the runs that are open then, and in the end the same runs are open as in the beginning. -/
structure Balanced (stack : List RunContext) (ms : List Moment) : Prop where
  disciplined : Disciplined stack ms
  restored : ms.foldl Moment.step stack = stack

/-- One list of moments behind another is disciplined if the second goes on where the first ended. -/
theorem disciplined_append {stack : List RunContext} {ms ms' : List Moment} :
    Disciplined stack (ms ++ ms') ↔ Disciplined stack ms ∧ Disciplined (ms.foldl Moment.step stack) ms' := by
  induction ms generalizing stack with
  | nil => simp [Disciplined]
  | cons m ms ih => simp [Disciplined, ih, and_assoc]

namespace Balanced

variable {stack : List RunContext} {c : RunContext} {ms ms' : List Moment}

theorem nil (stack : List RunContext) : Balanced stack [] := ⟨trivial, rfl⟩

theorem append (h : Balanced stack ms) (h' : Balanced stack ms') : Balanced stack (ms ++ ms') where
  disciplined := disciplined_append.mpr ⟨h.disciplined, by rw [h.restored]; exact h'.disciplined⟩
  restored := by rw [List.foldl_append, h.restored, h'.restored]

theorem seen (c : RunContext) (stack : List RunContext) : Balanced (c :: stack) [.seen c] := ⟨⟨rfl, trivial⟩, rfl⟩

theorem logged (e : LogEntry) (stack : List RunContext) : Balanced (e.context :: stack) [.logged e] :=
  ⟨⟨rfl, trivial⟩, rfl⟩

/-- Work in a run of its own is balanced, whatever runs are open around it. -/
theorem enclosed (h : Balanced (c :: stack) ms) : Balanced stack (.opened c :: ms ++ [.closed]) where
  disciplined := ⟨trivial, disciplined_append.mpr ⟨h.disciplined, trivial, trivial⟩⟩
  restored := by
    rw [List.cons_append, List.foldl_cons, List.foldl_append]
    change (ms.foldl Moment.step (c :: stack)).tail = stack
    rw [h.restored]
    rfl

theorem reported {r : Course} (c : Call) (h : Balanced (c.context :: stack) r.moments) :
    Balanced (c.context :: stack) (r.reported c).moments :=
  ((Balanced.logged c.started stack).append h).append (.logged c.completed stack)

theorem andThen {r next : Course} (h : Balanced stack r.moments) (hnext : Balanced stack next.moments)
    (caught : Bool) : Balanced stack (r.andThen caught next).moments := by
  rw [Course.andThen]
  split
  · exact h.append hnext
  · exact h

end Balanced

/-- **The moments of a course belong to the innermost open run.** -/
theorem balanced_course (script : Script) (tokens : Nat → Text) (around : RunContext) (issued : Nat) (now : Instant)
    (below : List RunContext) : Balanced (around :: below) (script.course tokens around issued now).moments := by
  -- A body is nested one deeper, so that the runs below are part of the induction.
  induction script generalizing around issued now below with
  | stop ending => exact .nil _
  | look rest ih => exact (Balanced.seen around below).append (ih around issued now below)
  | wait time rest ih => exact ih around issued time below
  | block b body caught rest ihbody ihrest =>
    refine Balanced.andThen (Balanced.enclosed ?_) (ihrest around _ _ below) caught
    have hbody := ihbody (b.context tokens issued now.value) (b.issued tokens issued) now (around :: below)
    cases b with
    | plain id name => exact hbody
    | labelled id name => exact hbody
    | command name => exact Balanced.reported ⟨name, _, _, _, _⟩ hbody

/-! ### Calls -/

def Course.Accounts (r : Course) : Prop := r.logged.Perm (r.calls.flatMap Call.entries)

theorem Course.Accounts.reported {r : Course} (h : r.Accounts) (c : Call) : (r.reported c).Accounts := by
  rw [Course.Accounts, Course.logged_reported]
  exact ((List.perm_append_singleton c.completed r.logged).trans (h.cons c.completed)).cons c.started

/-- What follows is accounted for as well, if it happens. -/
theorem Course.Accounts.andThen {r next : Course} (h : r.Accounts) (hnext : next.Accounts) (caught : Bool) :
    (r.andThen caught next).Accounts := by
  rw [Course.andThen]
  split
  · simpa [Course.Accounts, Course.logged] using h.append hnext
  · exact h

/-- **Every call logs its two entries**, and nothing else is logged. -/
theorem accounts_course (script : Script) (tokens : Nat → Text) (around : RunContext) (issued : Nat) (now : Instant) :
    (script.course tokens around issued now).Accounts := by
  induction script generalizing around issued now with
  | stop ending => exact .refl _
  | look rest ih => exact ih around issued now
  | wait time rest ih => exact ih around issued time
  | block b body caught rest ihbody ihrest =>
    refine Course.Accounts.andThen ?_ (ihrest around _ _) caught
    rw [Plan.within, Course.Accounts, Course.logged_enclosed]
    have hbody := ihbody (b.context tokens issued now.value) (b.issued tokens issued) now
    cases b with
    | plain id name => exact hbody
    | labelled id name => exact hbody
    | command name => exact hbody.reported _

/-! ### Nested runs -/

/-- **Runs nest.** A script of nested runs and commands ends as its course says. It leaves the context as it was, and
shows and logs what is seen and logged in the course. There every moment belongs to the innermost open run, and every
call of a command logs its start and its completion and nothing else. Of each of these entries, a log for debug
records writes one record. Whatever is done in a block, and however it ends, the context behind the block is the one
before it. -/
theorem runs_nest (shown : RunContext → Text) (script : Script) {s : Session} (hnumber : s.clock.isNaN = false)
    (hfinite : s.clock.isInf = false) :
    let r := script.course s.tokens s.context s.issued ⟨s.clock, hnumber, hfinite⟩
    (∃ s', (script.exec shown).run.run s = (r.ending.result, s') ∧ s'.context = s.context ∧
      s'.stdout = s.stdout ++ r.seen.map shown ∧ s'.stderr = s.stderr ++ r.logged.flatMap s.log.writes) ∧
    Balanced [s.context] r.moments ∧ r.Accounts ∧
    (∀ sink, s.log = .live sink → sink.level ≠ 0 ∧ sink.level ≤ .debug → ∀ c ∈ r.calls, ∀ e ∈ c.entries,
      Timestamp.Dated e.time →
        ∃ text, sink.form (if sink.addContext then e.recordInContext else e.record) = .ok text ∧
          s.log.writes e = [.record text]) ∧
    ∀ (b : Block) (body : Run Unit) (around : Session),
      ((b.around body).run.run around).2.context = around.context := by
  intro r
  have hrun := follows_exec shown script s ⟨s.clock, hnumber, hfinite⟩ rfl
  refine ⟨⟨s.after shown r, hrun, rfl, rfl, rfl⟩, balanced_course script _ _ _ _ [],
    accounts_course script _ _ _ _, ?_, context_around⟩
  intro sink hlog hlevel c _ e _ hdated
  rw [hlog]
  exact LogState.exists_writes hlevel hdated

/-- A run with two commands in it. The first exits without an error, and behind the second the run fails. -/
def commandsInRun : Script :=
  .block (.plain (some "outer".toList) none)
    (.look (.block (.command "build".toList) (.look (.stop (.exited (.int 0)))) true
      (.look (.block (.command "check".toList) (.look (.stop (.failed .noHome))) false
        (.look (.stop .returned)))))) true
    (.look (.stop .returned))

/-- A session without files, in which a shell is running. -/
def shellSession : Session where
  files := .dir []
  cwd := .top
  home := .top
  reader := Toml.parse
  clock := 1700000000.0
  tokens := Text.ofNat
  log := .live ⟨.debug, true, true⟩
  context := ⟨"shell".toList, [], 0.0⟩

theorem runs_nest_commandsInRun :
    shellSession.clock.isNaN = false ∧ shellSession.clock.isInf = false ∧
      ∃ s', Yields (commandsInRun.exec RunContext.id) shellSession () s' ∧ s'.context = shellSession.context ∧
        s'.stdout = ["outer", "cli_0", "outer", "cli_1", "shell"].map String.toList ∧
        s'.stderr.length = 4 := by
  obtain ⟨⟨s', hrun, hcontext, hstdout, hstderr⟩, -⟩ :=
    runs_nest RunContext.id commandsInRun (s := shellSession) (by decide) (by decide)
  refine ⟨by decide, by decide, s', hrun, hcontext, hstdout.trans (by decide), ?_⟩
  rw [hstderr]
  decide +kernel

end DocMark.Session
