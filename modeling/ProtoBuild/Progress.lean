import ProtoBuild.BuildUnit
import ProtoBuild.Workspace
import ProtoBuild.Phase.Record

/-!
# The progress of a build

A `Progress` is what somebody who polls a running build sees: its stage, the records
of its phases and those of its units.  Its stage only moves forward
(`Progress.advance`).
-/

namespace ProtoBuild

/-- What is known about one build. -/
structure Progress where
  /-- What was asked to be built. -/
  target : String
  branch : String
  startTime : UInt64
  stage : Stage := .initializing
  phases : PhaseRecords := {}
  /-- The units by their directories, relative to the lake. -/
  units : StringMap UnitRecord := ∅
  /-- The lake and its settings when the build was admitted. -/
  lake : Option Workspace := none

namespace Progress

/-- Whether the build is over. -/
def isFinal (p : Progress) : Bool :=
  p.stage.isFinal

/-- Moves to another stage, if the build may go there. -/
def advance (p : Progress) (stage : Stage) : Progress × Bool :=
  if p.stage.canAdvanceTo stage then ({ p with stage := stage }, true) else (p, false)

/-- Changes the record of one phase. -/
def modifyPhase (p : Progress) (phase : Phase) (f : PhaseRecord → PhaseRecord) : Progress :=
  { p with phases := p.phases.modify phase f }

/-- Changes the record of one unit, if it is there. -/
def modifyUnit (p : Progress) (unit : String) (f : UnitRecord → UnitRecord) : Progress :=
  { p with units := p.units.update unit f }

end Progress
end ProtoBuild
