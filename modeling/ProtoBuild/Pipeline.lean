import ProtoBuild.Pipeline.Build
import ProtoBuild.Pipeline.Publish
import ProtoBuild.Summary

/-!
# A build from beginning to end

The lake is prepared, its build files are generated, its definitions are checked, its
units are built and, if that was asked for, published.  Before each phase the build looks
whether it was asked to stop.

A phase is announced when it starts and when it ends, and the listener sees the progress
after every change of the stage.  An error ends the phase it occurs in and the whole
build (`Pipeline.abort`); a request to stop is no error and has no announcement of its
own (`Pipeline.stop`).
-/

namespace ProtoBuild

/-- The progress of a build that has just been asked for. -/
def Progress.initial (lake : Workspace) (target branch : String) (now : UInt64) : Progress :=
  { target := target, branch := branch, startTime := now, lake := some lake }

namespace Pipeline

open Work

/-- Ends a build that was asked to stop. -/
def stop {α : Type} : Work α := do
  advance .cancelled
  push
  throw .cancelled

/-- Goes on unless the build was asked to stop. -/
def checkpoint : Work Unit := do
  if ← isCancelled then stop

/-- Ends a build with an error, and with it the phase in which the error occurred. -/
def abort {α : Type} (phase : Option Phase) (e : PipelineError) : Work α := do
  match phase with
  | some phase =>
    let time ← now
    modifyPhase phase fun r => (r.fail time e.message).1
    tell (.phaseCompleted phase false (some e.message))
  | none => pure ()
  advance .failed
  push
  tell (.failed e.message)
  throw e

/-- Starts a phase. -/
def enter (phase : Phase) : Work Unit := do
  checkpoint
  advance phase.stage
  let time ← now
  modifyPhase phase fun r => (r.start time).1
  push
  tell (.phaseStarted phase)

/-- Announces the end of a phase whose end is recorded. -/
def leave (phase : Phase) : Work Unit := do
  push
  let r := (← get).phases.get phase
  tell (.phaseCompleted phase (r.state != .failed) r.error)

/-- Writes the notes of a collaborator into the record of a phase. -/
def writeNotes (phase : Phase) (notes : List Note) : Work Unit :=
  modifyPhase phase fun r => notes.foldl Note.write r

/-- Generates the build files. -/
def generate (lake : Workspace) : Work Unit := do
  enter .codegen
  let (notes, answer) ← call (.codegen lake)
  writeNotes .codegen notes
  match answer with
  | .error e => abort (some .codegen) (.codegen e)
  | .ok () =>
    let time ← now
    modifyPhase .codegen fun r => (r.succeed time).1
    leave .codegen

/-- Records what the checks have come to. -/
def recordReport (report : CheckReport) : Work Unit := do
  let time ← now
  modifyPhase .validation fun r => report.findings.foldl (fun r f => r.addLog f.text) r
  match report.skipped with
  | some reason => modifyPhase .validation fun r => (r.skip time reason).1
  | none =>
    if report.success then modifyPhase .validation fun r => (r.succeed time).1
    else abort (some .validation) (.invalid report.errors)

/-- Checks the definitions. -/
def validate (lake : Workspace) (options : BuildOptions) : Work Unit := do
  enter .validation
  if options.skipValidation then
    let time ← now
    modifyPhase .validation fun r => (r.skip time "Validation skipped by request").1
  else
    let (notes, answer) ← call (.validate lake)
    writeNotes .validation notes
    match answer with
    | .error e => abort (some .validation) (.validation e)
    | .ok report => recordReport report
  leave .validation

/-- Builds the target and gives its place in the lake. -/
def buildTarget (lake : Workspace) (target : String) (options : BuildOptions) :
    Work String := do
  enter .build
  match lake.relative? target with
  | none => abort (some .build) (.outside lake target)
  | some place =>
    try build lake place (options.onLake lake)
    catch e => if e.isCancelled then stop else abort (some .build) e
    leave .build
    return place

/-- Publishes what was built. -/
def publishTarget (lake : Workspace) (place : String) : Work Unit := do
  enter .publish
  try publish lake place
  catch e => abort (some .publish) e
  leave .publish

/-- All of a build. -/
def wholeBuild (lake : Workspace) (target : String) (options : BuildOptions) :
    Work BuildResult := do
  modify fun p => { p with lake := some (p.lake.getD lake) }
  checkpoint
  match ← call (.prepare lake) with
  | .error e => abort none (.scaffold e)
  | .ok () =>
    generate lake
    validate lake options
    let place ← buildTarget lake target options
    if options.installLocal then publishTarget lake place
    advance .completed
    push
    let result := (← get).result (← now)
    tell (.completed result)
    return result

/-- A part of a build as a program, from some progress: what it ends with, and the
progress then. -/
def Work.start {α : Type} (work : Work α) (p : Progress) :
    Program interface (Except PipelineError α × Progress) :=
  (work.run).run p

/-- A build as a program. -/
def run (lake : Workspace) (target : String) (options : BuildOptions) (p : Progress) :
    Program interface (Except PipelineError BuildResult × Progress) :=
  (wholeBuild lake target options).start p

end Pipeline
end ProtoBuild
