import ProtoBuild.Pipeline
import ProtoBuild.Proofs.Program.Runs

/-!
# Rules for the parts of a build

`Work.Ensures` says of a part of a build what it ensures when it ends: one condition for a
value and one for an error, each on the run so far and on the progress.  For every small
part there is an equation that says exactly what it does, as a rewriting rule; what is
proved of larger parts goes through these and does not open a small part again.

A run is read in two ways: `calls` are the calls to collaborators with their answers, and
`events` is what the listener was told.
-/

namespace ProtoBuild

/-- The answer of a collaborator that has succeeded and found nothing. -/
def Call.success : (c : Call) → c.Answer
  | prepare _ => .ok ()
  | codegen _ => ([], .ok ())
  | validate _ => ([], .ok (.ofFindings []))
  | discover _ _ => .ok []
  | build _ _ _ => .ok ⟨0, ""⟩
  | query _ _ => .ok []
  | clean _ => .ok ()
  | run _ _ _ => .ok ⟨0, ""⟩

namespace Pipeline

/-- The answers to a build that is not asked to stop, whose collaborators succeed. -/
def success : (q : Request) → q.Answer
  | .call c => c.success
  | .now => 0
  | .isCancelled => false
  | .tell _ => ()

/-- A run of a build: its requests with the answers they got. -/
abbrev Run := List (Exchange interface)

/-- A condition on the run so far and the progress. -/
abbrev Assertion := Run → Progress → Prop

/-! ## What happens in a run -/

/-- A call and its answer. -/
abbrev Answered := (c : Call) × c.Answer

/-- A collaborator is called and answers. -/
def called (c : Call) (answer : c.Answer) : Exchange interface := ⟨.call c, answer⟩

/-- The clock is read. -/
def timed (time : UInt64) : Exchange interface := ⟨.now, time⟩

/-- The build looks whether it was asked to stop. -/
def looked (stopped : Bool) : Exchange interface := ⟨.isCancelled, stopped⟩

/-- The listener is told something. -/
def told (e : Event) : Exchange interface := ⟨.tell e, ()⟩

/-- The call that an exchange is, with its answer. -/
def callOf? : Exchange interface → Option Answered
  | ⟨.call c, answer⟩ => some ⟨c, answer⟩
  | _ => none

/-- The event that an exchange tells of. -/
def eventOf? : Exchange interface → Option Event
  | ⟨.tell e, _⟩ => some e
  | _ => none

/-- The calls of a run with their answers. -/
def calls (run : Run) : List Answered := run.filterMap callOf?

/-- What the listener was told in a run. -/
def events (run : Run) : List Event := run.filterMap eventOf?

section

variable (run more : Run) (c : Call) (answer : c.Answer) (e : Event) (time : UInt64) (b : Bool)

@[simp] theorem calls_nil : calls [] = [] := rfl

@[simp] theorem calls_append : calls (run ++ more) = calls run ++ calls more :=
  List.filterMap_append

@[simp] theorem calls_called : calls (called c answer :: run) = ⟨c, answer⟩ :: calls run := rfl

@[simp] theorem calls_timed : calls (timed time :: run) = calls run := rfl

@[simp] theorem calls_looked : calls (looked b :: run) = calls run := rfl

@[simp] theorem calls_told : calls (told e :: run) = calls run := rfl

@[simp] theorem events_nil : events [] = [] := rfl

@[simp] theorem events_append : events (run ++ more) = events run ++ events more :=
  List.filterMap_append

@[simp] theorem events_called : events (called c answer :: run) = events run := rfl

@[simp] theorem events_timed : events (timed time :: run) = events run := rfl

@[simp] theorem events_looked : events (looked b :: run) = events run := rfl

@[simp] theorem events_told : events (told e :: run) = e :: events run := rfl

end

namespace Work

variable {α β ε : Type} {Q Q' : α → Assertion} {E E' : PipelineError → Assertion} {run : Run}
  {p : Progress}

/-! ## Where a part of a build is cut -/

theorem start_bind (work : Work α) (f : α → Work β) (p : Progress) :
    Work.start (work >>= f) p = Work.start work p >>= fun r =>
      match r.1 with
      | .ok a => Work.start (f a) r.2
      | .error e => .done (.error e, r.2) := by
  simp only [Work.start, ExceptT.run_bind, StateT.run_bind]
  congr 1
  funext r
  rcases r with ⟨_ | _, _⟩ <;> rfl

theorem start_tryCatch (work : Work α) (h : PipelineError → Work α) (p : Progress) :
    Work.start (tryCatch work h) p = Work.start work p >>= fun r =>
      match r.1 with
      | .ok a => .done (.ok a, r.2)
      | .error e => Work.start (h e) r.2 := by
  simp only [Work.start, tryCatch, tryCatchThe, MonadExceptOf.tryCatch, ExceptT.tryCatch,
    ExceptT.run, ExceptT.mk, StateT.run_bind]
  congr 1
  funext r
  rcases r with ⟨_ | _, _⟩ <;> rfl

/-! ## What a part of a build ensures -/

/-- After a run and at some progress, however its requests are answered, a part of a build
ends with a value and one condition or with an error and another. -/
def Ensures (work : Work α) (Q : α → Assertion) (E : PipelineError → Assertion) : Assertion :=
  fun run p =>
    (Work.start work p).Ensures (fun r run =>
      match r.1 with
      | .ok a => Q a run r.2
      | .error e => E e run r.2) run

theorem Ensures.mono {work : Work α} (h : Ensures work Q E run p)
    (hQ : ∀ a run p, Q a run p → Q' a run p) (hE : ∀ e run p, E e run p → E' e run p) :
    Ensures work Q' E' run p := by
  refine Program.Ensures.mono h ?_
  rintro ⟨r, p⟩ run h
  cases r with
  | ok a => exact hQ a run p h
  | error e => exact hE e run p h

@[simp] theorem ensures_pure (a : α) : Ensures (pure a) Q E run p ↔ Q a run p := Iff.rfl

@[simp] theorem ensures_throw (e : PipelineError) :
    Ensures (throw e : Work α) Q E run p ↔ E e run p := Iff.rfl

@[simp] theorem ensures_bind (work : Work α) (f : α → Work β) {Q : β → Assertion} :
    Ensures (work >>= f) Q E run p ↔
      Ensures work (fun a run p => Ensures (f a) Q E run p) E run p := by
  rw [Ensures, start_bind, Program.ensures_bind]
  refine iff_of_eq (congrArg (fun Q => (Work.start work p).Ensures Q run) ?_)
  funext r run
  rcases r with ⟨_ | _, _⟩ <;> rfl

/-- One part of a build after another. -/
theorem Ensures.bind {work : Work α} {f : α → Work β} {Q' : β → Assertion}
    (h : Ensures work Q E run p) (hf : ∀ a run p, Q a run p → Ensures (f a) Q' E run p) :
    Ensures (work >>= f) Q' E run p := by
  rw [ensures_bind]
  exact h.mono hf fun _ _ _ he => he

theorem ensures_trivial (work : Work α) :
    Ensures work (fun _ _ _ => True) (fun _ _ _ => True) run p := by
  rw [Ensures, Program.ensures_iff]
  rintro more ⟨_ | _, _⟩ _ <;> trivial

/-- What is ensured by two arguments is ensured together. -/
theorem Ensures.and {work : Work α} (h : Ensures work Q E run p) (h' : Ensures work Q' E' run p) :
    Ensures work (fun a run p => Q a run p ∧ Q' a run p) (fun e run p => E e run p ∧ E' e run p)
      run p := by
  rw [Ensures, Program.ensures_iff] at h h' ⊢
  rintro more ⟨_ | _, q⟩ hreaches
  · exact ⟨h more _ hreaches, h' more _ hreaches⟩
  · exact ⟨h more _ hreaches, h' more _ hreaches⟩

@[simp] theorem ensures_tryCatch (work : Work α) (h : PipelineError → Work α) :
    Ensures (tryCatch work h) Q E run p ↔
      Ensures work Q (fun e run p => Ensures (h e) Q E run p) run p := by
  rw [Ensures, start_tryCatch, Program.ensures_bind]
  refine iff_of_eq (congrArg (fun Q => (Work.start work p).Ensures Q run) ?_)
  funext r run
  rcases r with ⟨_ | _, _⟩ <;> rfl

@[simp] theorem ensures_get {Q : Progress → Assertion} :
    Ensures (get : Work Progress) Q E run p ↔ Q p run p := Iff.rfl

@[simp] theorem ensures_modify (f : Progress → Progress) {Q : Unit → Assertion} :
    Ensures (modify f : Work Unit) Q E run p ↔ Q () run (f p) := Iff.rfl

@[simp] theorem ensures_call (c : Call) {Q : c.Answer → Assertion} :
    Ensures (call c) Q E run p ↔ ∀ answer, Q answer (run ++ [called c answer]) p := Iff.rfl

@[simp] theorem ensures_now {Q : UInt64 → Assertion} :
    Ensures now Q E run p ↔ ∀ time, Q time (run ++ [timed time]) p := Iff.rfl

@[simp] theorem ensures_isCancelled {Q : Bool → Assertion} :
    Ensures isCancelled Q E run p ↔ ∀ b, Q b (run ++ [looked b]) p := Iff.rfl

@[simp] theorem ensures_tell (e : Event) {Q : Unit → Assertion} :
    Ensures (tell e) Q E run p ↔ Q () (run ++ [told e]) p :=
  ⟨fun h => h (), fun h _ => h⟩

@[simp] theorem ensures_push {Q : Unit → Assertion} :
    Ensures push Q E run p ↔ Q () (run ++ [told (.updated p)]) p := by
  simp only [push, ensures_bind, ensures_get, ensures_tell]

@[simp] theorem ensures_modifyPhase (phase : Phase) (f : PhaseRecord → PhaseRecord)
    {Q : Unit → Assertion} :
    Ensures (modifyPhase phase f) Q E run p ↔ Q () run (p.modifyPhase phase f) := Iff.rfl

@[simp] theorem ensures_modifyUnit (unit : String) (f : UnitRecord → UnitRecord)
    {Q : Unit → Assertion} :
    Ensures (modifyUnit unit f) Q E run p ↔ Q () run (p.modifyUnit unit f) := Iff.rfl

@[simp] theorem ensures_advance (stage : Stage) {Q : Unit → Assertion} :
    Ensures (advance stage) Q E run p ↔ Q () run (p.advance stage).1 := Iff.rfl

@[simp] theorem ensures_orThrow_ok (wrap : ε → PipelineError) (a : α) :
    Ensures (orThrow wrap (.ok a)) Q E run p ↔ Q a run p := Iff.rfl

@[simp] theorem ensures_orThrow_error (wrap : ε → PipelineError) (e : ε) :
    Ensures (orThrow wrap (.error e) : Work α) Q E run p ↔ E (wrap e) run p := Iff.rfl

end Work

open Work

variable {α : Type} {Q : α → Assertion} {E : PipelineError → Assertion} {run : Run} {p : Progress}

@[simp] theorem ensures_stop :
    Ensures (stop : Work α) Q E run p ↔
      E .cancelled (run ++ [told (.updated (p.advance .cancelled).1)])
        (p.advance .cancelled).1 := by
  simp only [stop, ensures_bind, ensures_advance, ensures_push, ensures_throw]

@[simp] theorem ensures_checkpoint {Q : Unit → Assertion} :
    Ensures checkpoint Q E run p ↔
      E .cancelled (run ++ [looked true, told (.updated (p.advance .cancelled).1)])
        (p.advance .cancelled).1 ∧
      Q () (run ++ [looked false]) p := by
  simp [checkpoint, and_comm]

/-- The progress of a build that an error has ended in a phase. -/
def abortedIn (phase : Phase) (time : UInt64) (e : PipelineError) (p : Progress) : Progress :=
  ((p.modifyPhase phase fun r => (r.fail time e.message).1).advance .failed).1

/-- The progress of a build that has entered a phase. -/
def enteredInto (phase : Phase) (time : UInt64) (p : Progress) : Progress :=
  (p.advance phase.stage).1.modifyPhase phase fun r => (r.start time).1

@[simp] theorem ensures_abort_some (phase : Phase) (e : PipelineError) :
    Ensures (abort (some phase) e : Work α) Q E run p ↔
      ∀ time, E e
        (run ++ [timed time, told (.phaseCompleted phase false (some e.message)),
          told (.updated (abortedIn phase time e p)), told (.failed e.message)])
        (abortedIn phase time e p) := by
  simp [abort, abortedIn]

@[simp] theorem ensures_abort_none (e : PipelineError) :
    Ensures (abort none e : Work α) Q E run p ↔
      E e (run ++ [told (.updated (p.advance .failed).1), told (.failed e.message)])
        (p.advance .failed).1 := by
  simp [abort]

@[simp] theorem ensures_enter (phase : Phase) {Q : Unit → Assertion} :
    Ensures (enter phase) Q E run p ↔
      E .cancelled (run ++ [looked true, told (.updated (p.advance .cancelled).1)])
        (p.advance .cancelled).1 ∧
      ∀ time, Q ()
        (run ++ [looked false, timed time, told (.updated (enteredInto phase time p)),
          told (.phaseStarted phase)])
        (enteredInto phase time p) := by
  simp [enter, enteredInto]

@[simp] theorem ensures_leave (phase : Phase) {Q : Unit → Assertion} :
    Ensures (leave phase) Q E run p ↔
      Q () (run ++ [told (.updated p), told (.phaseCompleted phase
        ((p.phases.get phase).state != .failed) (p.phases.get phase).error)]) p := by
  simp [leave]

@[simp] theorem ensures_writeNotes (phase : Phase) (notes : List Note) {Q : Unit → Assertion} :
    Ensures (writeNotes phase notes) Q E run p ↔
      Q () run (p.modifyPhase phase fun r => notes.foldl Note.write r) := Iff.rfl

/-- The last lines of a build that has come through all of its phases. -/
theorem ensures_finish {Q : BuildResult → Assertion} :
    Ensures (do
        advance .completed
        push
        let result := (← get).result (← now)
        tell (.completed result)
        return result) Q E run p ↔
      ∀ time, Q ((p.advance .completed).1.result time)
        (run ++ [told (.updated (p.advance .completed).1), timed time,
          told (.completed ((p.advance .completed).1.result time))])
        (p.advance .completed).1 := by
  simp only [ensures_bind, ensures_advance, ensures_push, ensures_get, ensures_now, ensures_tell,
    ensures_pure, List.append_assoc, List.cons_append, List.nil_append]

end Pipeline
end ProtoBuild
