import ProtoBuild.Engine
import ProtoBuild.Rehearsal.Script

/-!
# Builds with scripted collaborators

A rehearsal runs builds against a script instead of real tools.  It keeps a clock that
moves only by what the script says, and it notes every call and every event.  Builds of an
engine can be rehearsed as well: the script may then change the registry while a call is
under way.

## Two times

An operation is kept for a while after its end, and this while is measured on the clock,
which may stand still and may even be set back.  A sweep that is repeated waits on another
time, that of the tasks, which only goes forward.  A session keeps both, so that it can be
rehearsed what a sweep does that comes late, or comes after the clock was set back.
-/

namespace ProtoBuild
namespace Rehearsal

/-! ## One build -/

/-- What is known while a single build is rehearsed. -/
structure Scene where
  script : Script := {}
  clock : UInt64 := 1700000000000
  /-- Whether the build was asked to stop. -/
  stopped : Bool := false
  calls : List Call := []
  events : List Event := []

/-- Answers a call as the script says. -/
def Scene.perform (s : Scene) (c : Call) : c.Answer × Scene :=
  let ((cue, answer), script) := s.script.take c
  (answer,
    { s with
      script := script
      clock := s.clock + cue.delay
      stopped := s.stopped || cue.trips
      calls := s.calls ++ [c] })

/-- Answers a request of the build. -/
def Scene.answer (q : Pipeline.Request) : StateM Scene q.Answer :=
  match q with
  | .call c => fun s => s.perform c
  | .now => fun s => (s.clock, s)
  | .isCancelled => fun s => (s.stopped, s)
  | .tell e => fun s => ((), { s with events := s.events ++ [e] })

/-- Rehearses a program of a build. -/
def Scene.play {α : Type} (s : Scene) (p : Program Pipeline.interface α) : α × Scene :=
  (p.answerWith (m := StateM Scene) Scene.answer).run s

/-! ## An engine -/

/-- A sweep of the registry that is repeated: how often, and when it is next due.  Its
time is that of the tasks, which does not depend on the clock. -/
structure Sweeper where
  interval : Nat
  due : Nat
  deriving Repr

/-- What is known while an engine is rehearsed. -/
structure Session where
  engine : Engine
  script : Script := {}
  clock : UInt64 := 1700000000000
  calls : List Call := []
  /-- The time of the tasks. -/
  taskTime : Nat := 0
  sweepers : List Sweeper := []

namespace Session

/-- Sends the registry a message at the present time. -/
def send (s : Session) (m : Registry.Message) : Registry.Reply × Session :=
  let (engine, reply) := s.engine.send s.clock m
  (reply, { s with engine := engine })

/-- What happens in the registry during a call. -/
def applyCue (s : Session) (cue : Cue) : Session :=
  let message (m : OperationName → Registry.Message) (name : Option OperationName)
      (s : Session) : Session :=
    match name with
    | some name => (s.send (m name)).2
    | none => s
  { s with clock := s.clock + cue.delay }
    |> message .cancel cue.cancels
    |> message .delete cue.deletes
    |> message (.fail · "failed from outside") cue.fails

/-- Answers a call as the script says. -/
def perform (s : Session) (c : Call) : c.Answer × Session :=
  let ((cue, answer), script) := s.script.take c
  (answer, { s with script := script, calls := s.calls ++ [c] }.applyCue cue)

/-- Answers a request of the worker of a job. -/
def answer (job : Job) (q : Worker.Request) : StateM Session q.Answer :=
  match q with
  | .place => fun s => (s.engine.poolOpen, s)
  | .progress => fun s => (s.engine.registry.progress? job.name, s)
  | .change m => fun s => ((), (s.send m).2)
  | .call c => fun s => s.perform c
  | .now => fun s => (s.clock, s)
  | .isCancelled => fun s => (s.engine.registry.tripped job.token, s)

/-- Runs the worker of a job from beginning to end. -/
def work (s : Session) (job : Job) : Session :=
  (((Worker.run job).answerWith (m := StateM Session) (answer job)).run s).2

/-- Runs the workers of all queued jobs, one after another. -/
def drain (s : Session) : Session :=
  s.engine.queue.foldl work { s with engine := { s.engine with queue := [] } }

/-- Asks for a build of a target at the present time. -/
def submit (s : Session) (lake : Workspace) (resource : ResourceName) (target : String)
    (options : BuildOptions) : (Operation × Token) × Session :=
  let branch := s.script.branch.getD Version.defaultBranch
  let progress := Progress.initial lake target branch s.clock
  let (engine, answer) := s.engine.submit lake resource target options progress
  (answer, { s with engine := engine })

/-- Starts a repeated sweep.  What is queued runs first.  Nothing can be repeated without
an interval. -/
def sweepEvery (s : Session) (interval : Nat) : Session :=
  let s := s.drain
  if interval = 0 then s
  else { s with sweepers := s.sweepers ++ [⟨interval, s.taskTime + interval⟩] }

/-- The sweeper after all the sweeps that are due at some time, if any is. -/
def Sweeper.passed? (w : Sweeper) (time : Nat) : Option Sweeper :=
  if w.due ≤ time then
    some { w with due := w.due + ((time - w.due) / w.interval + 1) * w.interval }
  else none

/-- Lets the time of the tasks pass.  What is queued runs first.  Sweeps that are due
together leave what one of them leaves, since the clock stands still. -/
def elapse (s : Session) (millis : Nat) : Session :=
  let s := s.drain
  let time := s.taskTime + millis
  let isDue := s.sweepers.any fun w => (Sweeper.passed? w time).isSome
  let s := if isDue then (s.send .sweep).2 else s
  { s with
    taskTime := time
    sweepers := s.sweepers.map fun w => (Sweeper.passed? w time).getD w }

end Session
end Rehearsal
end ProtoBuild
