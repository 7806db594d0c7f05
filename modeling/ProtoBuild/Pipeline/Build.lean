import ProtoBuild.Outcome
import ProtoBuild.Pipeline.Request
import ProtoBuild.Resolution
import ProtoBuild.Version

/-!
# The build phase

The units that the target stands for are built one after another, the deepest first.
Each ends as built or failed; if the build is asked to stop between two of them, those
not yet attempted are skipped.  One failed unit ends the phase, unless the build is to
go on after a failure.

The phase writes its own end into its record, apart from an error of a collaborator.

How a collaborator is asked is the last argument of each part, so that one can look at the
progress at that moment.  A build just calls (`Work.call`).
-/

namespace ProtoBuild
namespace Pipeline

open Work

/-- How many lines of tool output are kept for a unit. -/
def keptLines : Nat := 50

/-- The arguments of every build. -/
def buildArgs (lake : Workspace) (version : String) : List String :=
  ["--keep_going", "--show_progress", "--progress_report_interval=10",
    "--action_env=PROTOLAKE_VERSION=" ++ version] ++
  lake.build.env.toList.map fun e => "--action_env=" ++ e.1 ++ "=" ++ e.2

/-- Finds the units that a target stands for, in the order in which they are built. -/
def resolveUnits (lake : Workspace) (mode : ResolutionMode) (target : String)
    (ask : (c : Call) → Work c.Answer := call) : Work (List String) :=
  match mode with
  | .direct => pure [target]
  | .isolated => do
    modifyPhase .build (·.setSubPhase "Discovering bundle targets")
    let found ← ask (.discover lake.root target)
    let units ← orThrow .discovery found
    modifyPhase .build
      (·.addLog ("Found " ++ toString units.length ++ " bundle targets"))
    return Resolution.deepestFirst units

/-- Records that a unit has failed. -/
def failUnit (unit reason : String) (now : UInt64) : Work (Except String Unit) := do
  modifyUnit unit fun u => (u.fail reason now).1
  return .error reason

/-- Builds one unit.  An error is why it failed. -/
def buildUnit (lake : Workspace) (args : List String) (unit : String)
    (ask : (c : Call) → Work c.Answer := call) : Work (Except String Unit) := do
  modifyPhase .build fun r =>
    (r.setSubPhase ("Building " ++ unit)).addLog ("Building: " ++ unit)
  let started ← now
  modifyUnit unit fun u => (u.move .building started).1
  let answer ← ask (.build lake.root args (Path.pattern unit))
  let ended ← now
  match answer with
  | .error e =>
    match e.output? with
    | some output => modifyUnit unit (·.addLog (ToolOutput.tail ⟨-1, output⟩ keptLines))
    | none => pure ()
    failUnit unit e.message ended
  | .ok output =>
    modifyUnit unit (·.addLog (output.tail keptLines))
    let outcome := BuildOutcome.classify output.exitCode output.text
    let code := "exit code " ++ toString output.exitCode
    if outcome.isUsable then
      modifyUnit unit fun u => (u.move .built ended).1
      if outcome = .partialSuccess then
        modifyPhase .build (·.addLog ("Partial success for " ++ unit ++ " (" ++ code ++ ")"))
      modifyPhase .build (·.addLog ("Successfully built: " ++ unit))
      return .ok ()
    else failUnit unit (code ++ "\n" ++ output.tail 5) ended

/-- Skips the units that were not attempted, and with them the rest of the phase. -/
def skipUnits (units : List String) : Work Unit := do
  let time ← now
  units.forM fun unit => modifyUnit unit fun u => (u.move .skipped time).1
  modifyPhase .build fun r =>
    (r.skip time ("Build cancelled, skipped " ++ toString units.length ++ " units")).1

/-- Builds units one after another and gives the number of those that failed. -/
def buildUnits (lake : Workspace) (args : List String) (goOn : Bool) (units : List String)
    (ask : (c : Call) → Work c.Answer := call) : Work Nat :=
  match units with
  | [] => pure 0
  | unit :: rest => do
    if ← isCancelled then
      skipUnits (unit :: rest)
      push
      throw .cancelled
    match ← buildUnit lake args unit ask with
    | .ok () =>
      push
      buildUnits lake args goOn rest ask
    | .error reason =>
      if goOn then
        modifyPhase .build
          (·.addLog ("Failed to build " ++ unit ++ ": " ++ reason ++ " (continuing)"))
        push
        return (← buildUnits lake args goOn rest ask) + 1
      else
        let e := PipelineError.unitFailed unit reason
        let time ← now
        modifyPhase .build fun r => (r.fail time e.message).1
        push
        throw e

/-- Ends the phase after all units were attempted. -/
def endBuild (attempted failed : Nat) : Work Unit := do
  let time ← now
  modifyPhase .build fun r =>
    if failed = attempted then
      (r.fail time ("All " ++ toString attempted ++ " build units failed")).1
    else
      ((r.addLog ("Built " ++ toString (attempted - failed) ++ "/" ++ toString attempted ++
        " units")).succeed time).1

/-- Clears the cache of the build tool. -/
def cleanCache (lake : Workspace) (ask : (c : Call) → Work c.Answer := call) : Work Unit := do
  modifyPhase .build (·.setSubPhase "Cleaning build cache")
  push
  orThrow .tool (← ask (.clean lake.root))
  modifyPhase .build (·.addLog "Build cache cleaned")

/-- Builds a target that is given relative to the lake. -/
def build (lake : Workspace) (target : String) (options : RunOptions)
    (ask : (c : Call) → Work c.Answer := call) : Work Unit := do
  if options.clean then cleanCache lake ask
  let units ← resolveUnits lake options.mode target ask
  if units.isEmpty then
    let time ← now
    modifyPhase .build fun r => (r.skip time ("No build units found under " ++ target)).1
  else
    let version := Version.onBranch lake.version (← get).branch
    modify fun p =>
      { p with
        units := units.foldl (fun m u => m.insert u { target := u, version := version }) p.units }
    push
    let failed ← buildUnits lake (buildArgs lake version) options.continueOnFailure units ask
    endBuild units.length failed

end Pipeline
end ProtoBuild
