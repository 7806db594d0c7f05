import ProtoBuild.Coordinates
import ProtoBuild.Pipeline.Request

/-!
# The publish phase

Every publish action that belongs to a unit that was built is run, whatever became of
the actions before it.  The phase fails only if all of them do.
-/

namespace ProtoBuild
namespace Pipeline

open Work

/-- The expression that lists the publish actions below a target. -/
def publishQuery (target : String) : String :=
  "filter(\"_publish$\", " ++ Path.pattern target ++ ")"

/-- The directories of the units that were built. -/
def Work.builtUnits : Work (List String) := do
  let p ← get
  return (p.units.values.filter fun u => u.status == .built).map UnitRecord.target

/-- The labels that belong to one of some units, each with its unit. -/
def publishPlan (built labels : List String) : List (String × String) :=
  labels.filterMap fun label => (owner? built label).map (label, ·)

/-- The record of a unit after one of its actions was run. -/
def publishedUnit (lake : Workspace) (unit label : String) (now : UInt64)
    (u : UnitRecord) : UnitRecord :=
  let u := match Artifact.ofLabel? lake unit label u.version with
    | some a => u.addArtifact a
    | none => u
  if u.status = .built then (u.move .published now).1 else u

/-- Runs one action and says whether it succeeded. -/
def publishOne (lake : Workspace) (label unit : String)
    (ask : (c : Call) → Work c.Answer := call) : Work Bool := do
  modifyPhase .publish (·.setSubPhase ("Publishing " ++ label))
  match ← ask (.run lake.root label []) with
  | .ok _ =>
    let time ← now
    modifyUnit unit (publishedUnit lake unit label time)
    modifyPhase .publish (·.addLog ("Published " ++ label))
    push
    return true
  | .error e =>
    modifyPhase .publish (·.addLog ("Failed to publish " ++ label ++ ": " ++ e.message))
    modifyUnit unit (·.addLog ("publish of " ++ label ++ " failed: " ++ e.message))
    push
    return false

/-- Runs actions one after another and gives the number of those that succeeded. -/
def publishAll (lake : Workspace) (plan : List (String × String))
    (ask : (c : Call) → Work c.Answer := call) : Work Nat :=
  match plan with
  | [] => pure 0
  | (label, unit) :: rest => do
    let ok ← publishOne lake label unit ask
    let published ← publishAll lake rest ask
    return if ok then published + 1 else published

/-- Publishes what was built below a target that is given relative to the lake. -/
def publish (lake : Workspace) (target : String)
    (ask : (c : Call) → Work c.Answer := call) : Work Unit := do
  modifyPhase .publish (·.setSubPhase "Discovering publish targets")
  let labels ← orThrow .tool (← ask (.query lake.root (publishQuery target)))
  let plan := publishPlan (← builtUnits) labels
  if plan.isEmpty then
    let time ← now
    modifyPhase .publish fun r => (r.skip time "No publish targets found").1
  else
    let published ← publishAll lake plan ask
    let time ← now
    modifyPhase .publish fun r =>
      if published = 0 then
        (r.fail time ("All " ++ toString plan.length ++ " publish targets failed")).1
      else
        ((r.addLog ("Published " ++ toString published ++ "/" ++ toString plan.length ++
          " targets")).succeed time).1

end Pipeline
end ProtoBuild
