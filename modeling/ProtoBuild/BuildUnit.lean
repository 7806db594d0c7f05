import ProtoBuild.Artifact
import ProtoBuild.StringMap

/-!
# Units of a build

A unit is a directory that is built on its own.  A `UnitRecord` says what has become
of it; its status moves along the edges of `UnitStatus.canBecome` only, and a refused
move changes nothing.
-/

namespace ProtoBuild

/-- Where a unit is in its life. -/
inductive UnitStatus where
  | pending
  | building
  | built
  | published
  | failed
  | skipped
  deriving DecidableEq, Repr, Inhabited

namespace UnitStatus

/-- All statuses. -/
def all : List UnitStatus := [pending, building, built, published, failed, skipped]

/-- How a status is written for a reader. -/
def text : UnitStatus → String
  | pending => "pending"
  | building => "building"
  | built => "built"
  | published => "published"
  | failed => "failed"
  | skipped => "skipped"

/-- A status with which the work on a unit is over; a built unit may still be
published. -/
def isFinal : UnitStatus → Bool
  | built | published | failed | skipped => true
  | _ => false

/-- A status that counts as a success. -/
def isSuccess : UnitStatus → Bool
  | built | published => true
  | _ => false

/-- Whether a unit may go from one status to another. -/
def canBecome : UnitStatus → UnitStatus → Bool
  | pending, building | pending, failed | pending, skipped => true
  | building, built | building, failed | building, skipped => true
  | built, published | built, failed => true
  | _, _ => false

end UnitStatus

/-- What has become of one unit. -/
structure UnitRecord where
  /-- The directory of the unit, relative to the lake. -/
  target : String
  version : String
  status : UnitStatus := .pending
  startTime : Option UInt64 := none
  endTime : Option UInt64 := none
  /-- The published packages by language. -/
  artifacts : StringMap Artifact := ∅
  error : Option String := none
  logs : List String := []

namespace UnitRecord

/-- The record with another status, if the unit may take it.  Its start is the time
at which it was first building, its end the time at which it was first final. -/
def move (u : UnitRecord) (next : UnitStatus) (now : UInt64) : UnitRecord × Bool :=
  if u.status.canBecome next then
    ({ u with
        status := next
        startTime := if next = .building then some (u.startTime.getD now) else u.startTime
        endTime := if next.isFinal then some (u.endTime.getD now) else u.endTime }, true)
  else (u, false)

/-- The record of a unit that has failed, if it may still fail. -/
def fail (u : UnitRecord) (message : String) (now : UInt64) : UnitRecord × Bool :=
  match u.move .failed now with
  | (u', true) => ({ u' with error := some message }, true)
  | (_, false) => (u, false)

/-- The record with a package; it takes the place of one for the same language. -/
def addArtifact (u : UnitRecord) (a : Artifact) : UnitRecord :=
  { u with artifacts := u.artifacts.insert a.language a }

/-- The record with an entry of tool output. -/
def addLog (u : UnitRecord) (text : String) : UnitRecord :=
  { u with logs := u.logs ++ [text] }

theorem move_of_not_canBecome {u : UnitRecord} {next : UnitStatus}
    (h : u.status.canBecome next = false) (now : UInt64) : u.move next now = (u, false) := by
  simp [move, h]

end UnitRecord
end ProtoBuild
