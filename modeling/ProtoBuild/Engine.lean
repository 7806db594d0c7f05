import ProtoBuild.Pipeline
import ProtoBuild.Registry.Message

/-!
# Builds that run for an operation

A build that is submitted is admitted by the registry and then queued.  Its worker waits
for its turn, runs the build from the progress that the registry holds, and keeps the
registry informed (`Worker.run`).  A worker sends messages for its own operation only.

If the operation has been forgotten before the worker starts, the worker does nothing;
if the pool of workers is closed, the worker only records the failure.

## Why a worker is a program

The registry may change between any two steps of a build, and also while a collaborator
works.  A worker that held the registry would hide these moments.  As a program it gives up
control with each question, so everything that may happen meanwhile happens in the answers:
a statement about a worker that holds for all answers holds for every order in which the
workers and their surroundings take their steps.
-/

namespace ProtoBuild

/-- A build to be run for an operation. -/
structure Job where
  name : OperationName
  lake : Workspace
  target : String
  options : BuildOptions
  token : Token

namespace Worker

/-- What a worker can ask for. -/
inductive Request where
  /-- A place in the pool: whether the pool is open. -/
  | place
  /-- The progress of its operation. -/
  | progress
  /-- A change of the registry. -/
  | change (m : Registry.Message)
  | call (c : Call)
  | now
  /-- Whether its token is tripped. -/
  | isCancelled

/-- The answers to a request. -/
abbrev Request.Answer : Request → Type
  | place => Bool
  | progress => Option Progress
  | change _ => Unit
  | call c => c.Answer
  | now => UInt64
  | isCancelled => Bool

/-- The requests of a worker. -/
def interface : Interface where
  Request := Request
  Answer := Request.Answer

/-- Asks for something. -/
def request (q : Request) : Program interface q.Answer :=
  Program.request (I := interface) q

/-- What a worker does when its build tells something: the registry learns of the
progress and of the result. -/
def tell (name : OperationName) : Event → Program interface Unit
  | .updated p => request (.change (.update name p))
  | .completed r => request (.change (.complete name r))
  | _ => pure ()

/-- What a worker does for a request of its build. -/
def serve (name : OperationName) : (q : Pipeline.Request) → Program interface q.Answer
  | .call c => request (.call c)
  | .now => request .now
  | .isCancelled => request .isCancelled
  | .tell e => tell name e

/-- What a worker does after its build. -/
def conclude (name : OperationName) : Except PipelineError BuildResult → Program interface Unit
  | .ok _ => pure ()
  | .error .cancelled => request (.change (.cancel name))
  | .error e => request (.change (.fail name ("Build failed: " ++ e.message)))

/-- All that a worker does. -/
def run (job : Job) : Program interface Unit := do
  if ← request .place then
    match ← request .progress with
    | none => pure ()
    | some p =>
      let (answer, _) ←
        (Pipeline.run job.lake job.target job.options p).answerWith (serve job.name)
      conclude job.name answer
  else request (.change (.fail job.name "Build failed: worker pool closed"))

end Worker

/-- The registry together with the builds that wait for a worker. -/
structure Engine where
  registry : Registry := {}
  /-- How long an operation stays known after its end, in milliseconds. -/
  retention : UInt64
  poolOpen : Bool := true
  ids : IdSequence := {}
  /-- The number of the next token. -/
  nextToken : Nat := 0
  queue : List Job := []

namespace Engine

/-- A token that no operation has. -/
def drawToken (e : Engine) : Token × Engine :=
  (⟨e.nextToken⟩, { e with nextToken := e.nextToken + 1 })

/-- Sends the registry a message. -/
def send (e : Engine) (now : UInt64) (m : Registry.Message) : Engine × Registry.Reply :=
  let (registry, reply) := e.registry.handle e.retention now m
  ({ e with registry := registry }, reply)

/-- Queues a build. -/
def enqueue (e : Engine) (job : Job) : Engine :=
  { e with queue := e.queue ++ [job] }

/-- Asks for a build under a name.  It is queued only if its operation is admitted. -/
def submitAs (e : Engine) (name : OperationName) (lake : Workspace) (resource : ResourceName)
    (target : String) (options : BuildOptions) (progress : Progress) :
    Engine × Operation × Token :=
  let (token, e) := e.drawToken
  let (registry, operation) := e.registry.register name resource progress token
  let e := { e with registry := registry }
  let job : Job :=
    { name := name, lake := lake, target := target, options := options, token := token }
  (if operation.done then e else e.enqueue job, operation, token)

/-- Asks for a build under the next name below its resource. -/
def submit (e : Engine) (lake : Workspace) (resource : ResourceName) (target : String)
    (options : BuildOptions) (progress : Progress) : Engine × Operation × Token :=
  let (id, ids) := e.ids.draw
  { e with ids := ids }.submitAs (OperationName.below resource id) lake resource target options
    progress

/-- Stops the engine: no further worker starts, and every operation is cancelled. -/
def shutdown (e : Engine) (now : UInt64) : Engine :=
  { e with poolOpen := false, registry := (e.registry.shutdown now).1 }

end Engine
end ProtoBuild
