import ProtoBuild.Operation
import ProtoBuild.Pipeline.Error
import ProtoBuild.Program

/-!
# What a build asks for

A build has collaborators: it calls them, it reads a clock, it looks whether it was
asked to stop, and it tells a listener what has happened.  These are the requests of
`Pipeline.interface`.

The collaborators of the first two phases do not touch the record of their phase.  They
answer with notes, which the build writes into the record.

## Why notes

A collaborator that was handed the record could also end the phase, or set its times.  The
only two things that it should be able to do are to name what it is doing and to add a line
to the log, so these two are what a `Note` can say.  What holds of a phase then holds
whatever its collaborator does, without a promise on its part.
-/

namespace ProtoBuild

/-- A call to a collaborator. -/
inductive Call where
  /-- Prepare the lake. -/
  | prepare (lake : Workspace)
  /-- Generate the build files. -/
  | codegen (lake : Workspace)
  /-- Check the definitions. -/
  | validate (lake : Workspace)
  /-- Find the units at or below a path that is relative to the lake. -/
  | discover (root search : String)
  /-- Build what a pattern stands for. -/
  | build (root : String) (args : List String) (pattern : String)
  /-- List the labels that an expression stands for. -/
  | query (root expression : String)
  /-- Clear the cache of the build tool. -/
  | clean (root : String)
  /-- Run the action of a label. -/
  | run (root label : String) (args : List String)

/-- Something a collaborator wants to have written into the record of its phase. -/
inductive Note where
  | subPhase (text : String)
  | log (line : String)
  deriving DecidableEq, Repr

/-- The record with a note written into it. -/
def Note.write (r : PhaseRecord) : Note → PhaseRecord
  | subPhase text => r.setSubPhase text
  | log line => r.addLog line

/-- The answers to a call. -/
abbrev Call.Answer : Call → Type
  | prepare _ => Except ScaffoldError Unit
  | codegen _ => List Note × Except CodegenError Unit
  | validate _ => List Note × Except ToolError CheckReport
  | discover _ _ => Except DiscoveryError (List String)
  | build _ _ _ => Except ToolError ToolOutput
  | query _ _ => Except ToolError (List String)
  | clean _ => Except ToolError Unit
  | run _ _ _ => Except ToolError ToolOutput

/-- What a listener is told. -/
inductive Event where
  | phaseStarted (phase : Phase)
  | phaseCompleted (phase : Phase) (success : Bool) (message : Option String)
  | updated (progress : Progress)
  | completed (result : BuildResult)
  | failed (message : String)

/-- The progress that an event shows. -/
def Event.progress? : Event → Option Progress
  | updated p => some p
  | _ => none

namespace Pipeline

/-- What a build can ask for. -/
inductive Request where
  | call (c : Call)
  /-- The present time. -/
  | now
  /-- Whether the build was asked to stop. -/
  | isCancelled
  | tell (e : Event)

/-- The answers to a request. -/
abbrev Request.Answer : Request → Type
  | call c => c.Answer
  | now => UInt64
  | isCancelled => Bool
  | tell _ => Unit

/-- The requests of a build. -/
def interface : Interface where
  Request := Request
  Answer := Request.Answer

/-- A part of a build: it works on the progress, may ask for something and may end the
build.  The progress is kept when the build ends. -/
abbrev Work (α : Type) := ExceptT PipelineError (StateT Progress (Program interface)) α

namespace Work

/-- Asks for something. -/
def request (q : Request) : Work q.Answer :=
  ExceptT.lift (StateT.lift (Program.request (I := interface) q))

/-- Calls a collaborator. -/
def call (c : Call) : Work c.Answer := request (.call c)

/-- Reads the clock. -/
def now : Work UInt64 := request .now

/-- Looks whether the build was asked to stop. -/
def isCancelled : Work Bool := request .isCancelled

/-- Tells the listener something. -/
def tell (e : Event) : Work Unit := request (.tell e)

/-- Tells the listener the present progress. -/
def push : Work Unit := do
  tell (.updated (← get))

/-- Changes the record of a phase. -/
def modifyPhase (phase : Phase) (f : PhaseRecord → PhaseRecord) : Work Unit :=
  modify (·.modifyPhase phase f)

/-- Changes the record of a unit. -/
def modifyUnit (unit : String) (f : UnitRecord → UnitRecord) : Work Unit :=
  modify (·.modifyUnit unit f)

/-- Goes to another stage, if the build may. -/
def advance (stage : Stage) : Work Unit :=
  modify fun p => (p.advance stage).1

/-- The value of a success; an error ends the build. -/
def orThrow {ε α : Type} (wrap : ε → PipelineError) : Except ε α → Work α
  | .ok a => pure a
  | .error e => throw (wrap e)

end Work
end Pipeline
end ProtoBuild
