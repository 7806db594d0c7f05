import ProtoBuild.Registry

/-!
# Messages to the registry

Every change of the registry is a message to it.  `Registry.handle` is the one way in
which a registry changes, so what it keeps holds after any sequence of messages.
-/

namespace ProtoBuild
namespace Registry

/-- A change that the registry is asked for. -/
inductive Message where
  | register (name : OperationName) (resource : ResourceName) (progress : Progress) (token : Token)
  | update (name : OperationName) (progress : Progress)
  | complete (name : OperationName) (result : BuildResult)
  | fail (name : OperationName) (message : String)
  | cancel (name : OperationName)
  | delete (name : OperationName)
  | sweep
  | shutdown

/-- The answer to a message. -/
inductive Reply where
  | operation (o : Operation)
  | flag (b : Bool)
  | outcome (r : Except RegistryError Unit)
  | count (n : Nat)

/-- The registry after a message that arrives at some time, and the answer. -/
def handle (retention now : UInt64) (m : Message) (r : Registry) : Registry × Reply :=
  match m with
  | .register name resource progress token =>
    let (r, o) := r.register name resource progress token
    (r, .operation o)
  | .update name progress =>
    let (r, b) := r.update name progress
    (r, .flag b)
  | .complete name result =>
    let (r, o) := r.complete name result now
    (r, .outcome o)
  | .fail name message =>
    let (r, o) := r.fail name message now
    (r, .outcome o)
  | .cancel name =>
    let (r, b) := r.cancel name now
    (r, .flag b)
  | .delete name =>
    let (r, b) := r.delete name
    (r, .flag b)
  | .sweep =>
    let (r, n) := r.sweep retention now
    (r, .count n)
  | .shutdown =>
    let (r, n) := r.shutdown now
    (r, .count n)

end Registry
end ProtoBuild
