import ProtoBuild.Phase

/-!
# The record of a phase

A `PhaseRecord` says what has become of one phase.  It is frozen once its state is
final: every later change is refused and leaves the record as it is
(`PhaseRecord.finish_of_isFinal`, `addLog_of_isFinal`, `setSubPhase_of_isFinal`).

The changes return the new record.  Those that can be refused say so with a
boolean beside it.
-/

namespace ProtoBuild

/-- What has become of one phase. -/
structure PhaseRecord where
  state : PhaseState := .notStarted
  /-- What the phase is doing now, empty if nothing is known. -/
  subPhase : String := ""
  startTime : Option UInt64 := none
  endTime : Option UInt64 := none
  error : Option String := none
  log : List String := []
  deriving DecidableEq, Repr, Inhabited

namespace PhaseRecord

/-- Whether nothing about the phase can change any more. -/
def isFinal (r : PhaseRecord) : Bool :=
  r.state.isFinal

/-- Marks the phase as running.  Refused unless it has not started. -/
def start (r : PhaseRecord) (now : UInt64) : PhaseRecord × Bool :=
  if r.state = .notStarted then ({ r with state := .running, startTime := some now }, true)
  else (r, false)

/-- Says what the phase is doing. -/
def setSubPhase (r : PhaseRecord) (text : String) : PhaseRecord :=
  if r.isFinal then r else { r with subPhase := text }

/-- Adds a line to the log. -/
def addLog (r : PhaseRecord) (line : String) : PhaseRecord :=
  if r.isFinal then r else { r with log := r.log ++ [line] }

/-- Ends the phase in a final state.  Refused if it has ended before.  A phase that
never started counts as started when it ends. -/
def finish (r : PhaseRecord) (state : PhaseState) (now : UInt64) (error : Option String) :
    PhaseRecord × Bool :=
  if r.isFinal then (r, false)
  else
    ({ r with
        state := state
        startTime := some (r.startTime.getD now)
        endTime := some now
        error := error.orElse fun _ => r.error }, true)

/-- Ends the phase well. -/
def succeed (r : PhaseRecord) (now : UInt64) : PhaseRecord × Bool :=
  r.finish .succeeded now none

/-- Ends the phase with an error. -/
def fail (r : PhaseRecord) (now : UInt64) (message : String) : PhaseRecord × Bool :=
  r.finish .failed now (some message)

/-- Ends the phase without its work.  The reason is a line of the log and no
error. -/
def skip (r : PhaseRecord) (now : UInt64) (reason : String) : PhaseRecord × Bool :=
  (r.addLog reason).finish .skipped now none

/-! ## What a final record refuses -/

theorem start_of_isFinal {r : PhaseRecord} (h : r.isFinal = true) (now : UInt64) :
    r.start now = (r, false) := by
  unfold start
  rw [if_neg]
  intro hs
  simp [isFinal, hs, PhaseState.isFinal] at h

theorem setSubPhase_of_isFinal {r : PhaseRecord} (h : r.isFinal = true) (text : String) :
    r.setSubPhase text = r := by
  simp [setSubPhase, h]

theorem addLog_of_isFinal {r : PhaseRecord} (h : r.isFinal = true) (line : String) :
    r.addLog line = r := by
  simp [addLog, h]

theorem finish_of_isFinal {r : PhaseRecord} (h : r.isFinal = true) (state : PhaseState)
    (now : UInt64) (error : Option String) : r.finish state now error = (r, false) := by
  simp [finish, h]

theorem skip_of_isFinal {r : PhaseRecord} (h : r.isFinal = true) (now : UInt64)
    (reason : String) : r.skip now reason = (r, false) := by
  rw [skip, addLog_of_isFinal h, finish_of_isFinal h]

end PhaseRecord

/-- The records of the four phases. -/
structure PhaseRecords where
  codegen : PhaseRecord := {}
  validation : PhaseRecord := {}
  build : PhaseRecord := {}
  publish : PhaseRecord := {}
  deriving DecidableEq, Repr, Inhabited

namespace PhaseRecords

/-- The record of one phase. -/
def get (r : PhaseRecords) : Phase → PhaseRecord
  | .codegen => r.codegen
  | .validation => r.validation
  | .build => r.build
  | .publish => r.publish

/-- The records with that of one phase changed. -/
def modify (r : PhaseRecords) (phase : Phase) (f : PhaseRecord → PhaseRecord) : PhaseRecords :=
  match phase with
  | .codegen => { r with codegen := f r.codegen }
  | .validation => { r with validation := f r.validation }
  | .build => { r with build := f r.build }
  | .publish => { r with publish := f r.publish }

theorem get_modify (r : PhaseRecords) (p q : Phase) (f : PhaseRecord → PhaseRecord) :
    (r.modify p f).get q = if q = p then f (r.get q) else r.get q := by
  cases p <;> cases q <;> rfl

/-- The error of the first phase that failed with one. -/
def firstError? (r : PhaseRecords) : Option String :=
  Phase.all.findSome? fun p => if (r.get p).state = .failed then (r.get p).error else none

end PhaseRecords
end ProtoBuild
