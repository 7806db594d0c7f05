import ProtoBuild.Registry.Filter
import ProtoBuild.Text.Digit

/-!
# The registry of operations

The registry knows every operation by its name, and for each resource the operation that
is active on it.  An operation is admitted only if its resource is free and its name is
new.  It ends once: with a result, with a failure, or by being cancelled; then its
resource is free again, and it stays known until its retention has passed.

Each operation carries a token, which the build that works for it looks at.  Cancelling
an operation trips its token, and a tripped token stays tripped.  Tokens are shared with
the builds, so they outlive the operation in the registry.

Each change gives the new registry and an answer.  A change that is refused leaves the
registry as it is.

## Why tripped tokens are not part of the entries

A build goes on looking at its token after its operation was cancelled, and also after the
operation was forgotten.  A flag inside an entry would vanish together with the entry, and
a build that had not yet looked would never learn that it should stop.  So an entry only
names its token, and which tokens are tripped is kept beside the entries, where nothing is
ever taken away.
-/

namespace ProtoBuild

/-- A token that tells a build to stop once it is tripped. -/
structure Token where
  number : Nat
  deriving DecidableEq, Repr

/-- An operation as the registry holds it. -/
structure Entry where
  operation : Operation
  token : Token
  /-- When the operation ended. -/
  endedAt : Option UInt64 := none

namespace Entry

/-- The entry with other progress of its operation. -/
def withProgress (e : Entry) (progress : Progress) : Entry :=
  { e with operation := { e.operation with progress := progress } }

/-- The entry once its operation has ended. -/
def ended (e : Entry) (progress : Progress) (result : Option BuildResult)
    (fault : Option Fault) (now : UInt64) : Entry :=
  { e with
    operation :=
      { e.operation with progress := progress, done := true, result := result, fault := fault }
    endedAt := some now }

/-- Whether the retention of an operation has not yet passed. -/
def isKept (e : Entry) (retention now : UInt64) : Bool :=
  match e.endedAt with
  | some ended => Text.monus now ended < retention
  | none => true

end Entry

/-- The operations that are known, those that are active, and the tokens that are
tripped. -/
structure Registry where
  /-- The entries by the names of their operations. -/
  entries : StringMap Entry := ∅
  /-- The names of the active operations by their resources. -/
  active : StringMap OperationName := ∅
  tripped : Token → Bool := fun _ => false

/-- Why a change was refused. -/
inductive RegistryError where
  | notFound (name : OperationName)
  | alreadyDone (name : OperationName)
  | invalidFilter (term : String)
  deriving DecidableEq, Repr

/-- What is said of the error. -/
def RegistryError.message : RegistryError → String
  | notFound name => "operation not found: " ++ name.text
  | alreadyDone name => "operation already done: " ++ name.text
  | invalidFilter term => "invalid filter: " ++ term

namespace Registry

/-- The registry without operations. -/
def empty : Registry := {}

/-- The entry of an operation. -/
def entryOf? (r : Registry) (name : OperationName) : Option Entry :=
  r.entries.get? name.text

/-- An operation as it is now. -/
def get? (r : Registry) (name : OperationName) : Option Operation :=
  (r.entryOf? name).map Entry.operation

/-- The progress of an operation as it is now. -/
def progress? (r : Registry) (name : OperationName) : Option Progress :=
  (r.get? name).map Operation.progress

/-- The token of an operation. -/
def token? (r : Registry) (name : OperationName) : Option Token :=
  (r.entryOf? name).map Entry.token

/-- The operation that is active on a resource. -/
def active? (r : Registry) (resource : ResourceName) : Option OperationName :=
  r.active.get? resource.text

/-- Trips a token. -/
def trip (r : Registry) (t : Token) : Registry :=
  { r with tripped := fun u => if u = t then true else r.tripped u }

/-- Sets the entry of an operation. -/
def setEntry (r : Registry) (name : OperationName) (e : Entry) : Registry :=
  { r with entries := r.entries.insert name.text e }

/-- Adds an entry whose operation is active on a resource. -/
def addEntry (r : Registry) (name : OperationName) (resource : ResourceName) (e : Entry) :
    Registry :=
  { r with
    entries := r.entries.insert name.text e
    active := r.active.insert resource.text name }

/-- Takes the entry of an operation away. -/
def eraseEntry (r : Registry) (name : OperationName) : Registry :=
  { r with entries := r.entries.erase name.text }

/-- Frees a resource if an operation is active on it. -/
def release (r : Registry) (resource : ResourceName) (name : OperationName) : Registry :=
  if r.active? resource = some name then { r with active := r.active.erase resource.text }
  else r

/-! ## Changes -/

/-- Admits a new operation, unless its resource is busy or its name is taken. -/
def register (r : Registry) (name : OperationName) (resource : ResourceName)
    (progress : Progress) (token : Token) : Registry × Operation :=
  match r.active? resource with
  | some active => (r, .aborted name resource progress active)
  | none =>
    match r.entryOf? name with
    | some _ => (r, .aborted name resource progress name)
    | none =>
      let operation := Operation.pending name resource progress
      (r.addEntry name resource { operation := operation, token := token }, operation)

/-- Replaces the progress of an operation that is not done, if its stage may go there. -/
def update (r : Registry) (name : OperationName) (progress : Progress) : Registry × Bool :=
  match r.entryOf? name with
  | none => (r, false)
  | some e =>
    let stage := e.operation.progress.stage
    if e.operation.done || ! (stage == progress.stage || stage.canAdvanceTo progress.stage) then
      (r, false)
    else
      (r.setEntry name (e.withProgress progress), true)

/-- Ends an operation that is not done. -/
def finish (r : Registry) (name : OperationName) (e : Entry) (progress : Progress)
    (result : Option BuildResult) (fault : Option Fault) (now : UInt64) : Registry :=
  (r.setEntry name (e.ended progress result fault now)).release e.operation.resource name

/-- Ends an operation with a result. -/
def complete (r : Registry) (name : OperationName) (result : BuildResult) (now : UInt64) :
    Registry × Except RegistryError Unit :=
  match r.entryOf? name with
  | none => (r, .error (.notFound name))
  | some e =>
    if e.operation.done then (r, .error (.alreadyDone name))
    else (r.finish name e result.progress (some result) e.operation.fault now, .ok ())

/-- Ends an operation with a failure. -/
def fail (r : Registry) (name : OperationName) (message : String) (now : UInt64) :
    Registry × Except RegistryError Unit :=
  match r.entryOf? name with
  | none => (r, .error (.notFound name))
  | some e =>
    if e.operation.done then (r, .error (.alreadyDone name))
    else
      (r.finish name e (e.operation.progress.advance .failed).1 e.operation.result
        (some { code := .internal, message := message }) now, .ok ())

/-- Ends an operation and tells its build to stop. -/
def cancel (r : Registry) (name : OperationName) (now : UInt64) : Registry × Bool :=
  match r.entryOf? name with
  | none => (r, false)
  | some e =>
    if e.operation.done then (r, false)
    else
      ((r.trip e.token).finish name e (e.operation.progress.advance .cancelled).1
        e.operation.result
        (some { code := .cancelled, message := "Operation cancelled by user" }) now, true)

/-- Forgets an operation.  If it was not done, its build is told to stop. -/
def delete (r : Registry) (name : OperationName) : Registry × Bool :=
  match r.entryOf? name with
  | none => (r, false)
  | some e =>
    let r' := if e.operation.done then r else r.trip e.token
    ((r'.eraseEntry name).release e.operation.resource name, true)

/-- The whole milliseconds of a span of nanoseconds, or the largest number of sixty-four bits if
there are more. -/
def wholeMillis (nanos : Nat) : UInt64 :=
  Text.clampWord (nanos / 1000000)

/-- The retention in milliseconds, where it is given in seconds. -/
def retentionMillis (seconds : UInt64) : UInt64 :=
  wholeMillis (seconds.toNat * 1000000000)

/-- Forgets the operations whose retention has passed, and gives their number. -/
def sweep (r : Registry) (retention now : UInt64) : Registry × Nat :=
  let kept := r.entries.filter fun _ e => e.isKept retention now
  ({ r with entries := kept }, r.entries.size - kept.size)

/-- The names of the operations that are not done. -/
def running (r : Registry) : List OperationName :=
  (r.entries.values.filter fun e => ! e.operation.done).map fun e => e.operation.name

/-- Cancels the operations of some names, and gives the number of those it cancelled. -/
def cancelAll (now : UInt64) : List OperationName → Registry → Registry × Nat
  | [], r => (r, 0)
  | name :: rest, r =>
    let (r, cancelled) := r.cancel name now
    let (r, count) := cancelAll now rest r
    (r, if cancelled then count + 1 else count)

/-- Cancels every operation that is not done, and gives their number. -/
def shutdown (r : Registry) (now : UInt64) : Registry × Nat :=
  cancelAll now r.running r

/-! ## Lists -/

/-- One page of a list of operations. -/
structure Page where
  operations : List Operation
  /-- What to ask the next page with; missing on the last page. -/
  next : Option String

/-- The size of a page when none is asked for. -/
def defaultPageSize : Nat := 50

/-- The operations that a filter accepts and whose names come after the last one of the
page before, in the order of their names. -/
def listed (r : Registry) (filter : Filter) (after : Option String) : List Operation :=
  (r.entries.values.map Entry.operation).filter fun o =>
    filter.accepts o && (match after with
      | some last => decide (last < o.name.text)
      | none => true)

/-- One page of the operations that a filter accepts. -/
def page (r : Registry) (filter : Filter) (size : Nat) (after : Option String) : Page :=
  let all := r.listed filter after
  let size := if size = 0 then defaultPageSize else size
  let operations := all.take size
  { operations := operations
    next := if size < all.length then operations.getLast?.map fun o => o.name.text else none }

/-- One page of the operations that the text of a filter accepts. -/
def list (r : Registry) (filter : String) (size : Nat) (after : Option String) :
    Except RegistryError Page :=
  match Filter.parse filter with
  | .error term => .error (.invalidFilter term)
  | .ok f => .ok (r.page f size after)

end Registry
end ProtoBuild
