/-!
# Stages of an operation and phases of a build

A `Stage` says where an operation is.  Its stages have an order, and an operation
moves only forward in it; a final stage is never left.  Four of the stages do work
that is recorded on its own: these are the `Phase`s, and `Phase.stage` says which
stage each of them belongs to.  A `PhaseState` is where one phase is in its life.
-/

namespace ProtoBuild

/-- Where an operation is. -/
inductive Stage where
  | initializing
  | generating
  | validating
  | building
  | publishing
  | completed
  | cancelled
  | failed
  deriving DecidableEq, Repr, Inhabited

namespace Stage

/-- All stages, in the order in which an operation goes through them. -/
def all : List Stage :=
  [initializing, generating, validating, building, publishing, completed, cancelled, failed]

/-- The place of a stage in the order. -/
def rank : Stage → Nat
  | initializing => 0
  | generating => 1
  | validating => 2
  | building => 3
  | publishing => 4
  | completed => 5
  | cancelled => 6
  | failed => 7

/-- How a stage is written. -/
def text : Stage → String
  | initializing => "INITIALIZING"
  | generating => "RUNNING_CODEGEN"
  | validating => "VALIDATING"
  | building => "BUILDING"
  | publishing => "PUBLISHING"
  | completed => "COMPLETED"
  | cancelled => "CANCELLED"
  | failed => "FAILED"

/-- A final stage is never left. -/
def isFinal : Stage → Bool
  | completed | cancelled | failed => true
  | _ => false

/-- Whether an operation may go from one stage to another: from a final stage only
to itself, from any other to a final stage or to one that is not earlier. -/
def canAdvanceTo (s next : Stage) : Bool :=
  if s.isFinal then s == next else next.isFinal || s.rank ≤ next.rank

theorem canAdvanceTo_refl (s : Stage) : s.canAdvanceTo s = true := by
  cases s <;> rfl

theorem canAdvanceTo_trans {a b c : Stage} (hab : a.canAdvanceTo b = true)
    (hbc : b.canAdvanceTo c = true) : a.canAdvanceTo c = true := by
  revert hab hbc
  cases a <;> cases b <;> cases c <;> decide

end Stage

/-- The parts of a build that are recorded on their own, in the order in which they
run. -/
inductive Phase where
  | codegen
  | validation
  | build
  | publish
  deriving DecidableEq, Repr

namespace Phase

/-- All phases in the order in which they run. -/
def all : List Phase := [codegen, validation, build, publish]

/-- How a phase is written. -/
def text : Phase → String
  | codegen => "codegen"
  | validation => "validation"
  | build => "build"
  | publish => "publish"

/-- The stage an operation is in while a phase runs. -/
def stage : Phase → Stage
  | codegen => .generating
  | validation => .validating
  | build => .building
  | publish => .publishing

end Phase

/-- Where a phase is in its life. -/
inductive PhaseState where
  | notStarted
  | running
  | succeeded
  | failed
  | skipped
  deriving DecidableEq, Repr, Inhabited

namespace PhaseState

/-- All states of a phase. -/
def all : List PhaseState := [notStarted, running, succeeded, failed, skipped]

/-- How a state is written for a reader. -/
def text : PhaseState → String
  | notStarted => "not_started"
  | running => "running"
  | succeeded => "succeeded"
  | failed => "failed"
  | skipped => "skipped"

/-- A final state is never left. -/
def isFinal : PhaseState → Bool
  | succeeded | failed | skipped => true
  | _ => false

end PhaseState
end ProtoBuild
