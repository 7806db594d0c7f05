import ProtoBuild.Finding
import ProtoBuild.Progress

/-!
# Operations and their ends

An `Operation` is the handle under which a build can be polled.  It ends with a
`BuildResult`, which holds a summary of the build, or with a `Fault`.
-/

namespace ProtoBuild

/-- The kinds of faults an operation can end with. -/
inductive FaultCode where
  | cancelled
  | notFound
  | aborted
  | internal
  deriving DecidableEq, Repr

namespace FaultCode

/-- All codes. -/
def all : List FaultCode := [cancelled, notFound, aborted, internal]

/-- How a code is written. -/
def text : FaultCode → String
  | cancelled => "CANCELLED"
  | notFound => "NOT_FOUND"
  | aborted => "ABORTED"
  | internal => "INTERNAL"

/-- The number of a code among the status codes of remote calls. -/
def number : FaultCode → Nat
  | cancelled => 1
  | notFound => 5
  | aborted => 10
  | internal => 13

end FaultCode

/-- Why an operation has no result. -/
structure Fault where
  code : FaultCode
  message : String
  deriving DecidableEq, Repr

/-- A fault in one line. -/
def Fault.text (f : Fault) : String :=
  f.code.text ++ ": " ++ f.message

/-- How a finished build went as a whole. -/
inductive Verdict where
  | succeeded
  | partialSuccess
  | failed
  | cancelled
  deriving DecidableEq, Repr

namespace Verdict

/-- All verdicts. -/
def all : List Verdict := [succeeded, partialSuccess, failed, cancelled]

/-- How a verdict is written. -/
def text : Verdict → String
  | succeeded => "SUCCEEDED"
  | partialSuccess => "PARTIAL_SUCCESS"
  | failed => "FAILED"
  | cancelled => "CANCELLED"

/-- The exit code of a command whose build ended so. -/
def exitCode : Verdict → Nat
  | succeeded => 0
  | failed => 1
  | partialSuccess => 2
  | cancelled => 130

end Verdict

/-- The counts of a build, the packages it published and its first error. -/
structure Summary where
  total : UInt64 := 0
  successful : UInt64 := 0
  failed : UInt64 := 0
  skipped : UInt64 := 0
  artifacts : List String := []
  firstError : Option String := none
  deriving DecidableEq, Repr

/-- What a finished build leaves. -/
structure BuildResult where
  progress : Progress
  verdict : Verdict
  completionTime : UInt64
  summary : Summary

/-- The handle of a build.  Until it is done it has neither result nor fault. -/
structure Operation where
  name : OperationName
  resource : ResourceName
  progress : Progress
  done : Bool
  result : Option BuildResult := none
  fault : Option Fault := none

namespace Operation

/-- An operation that has just been admitted. -/
def pending (name : OperationName) (resource : ResourceName) (progress : Progress) :
    Operation :=
  { name := name, resource := resource, progress := progress, done := false }

/-- An operation that was not admitted, because of one that is active. -/
def aborted (name : OperationName) (resource : ResourceName) (progress : Progress)
    (active : OperationName) : Operation :=
  { name := name
    resource := resource
    progress := progress
    done := true
    fault := some
      { code := .aborted
        message := "Resource " ++ resource.text ++
          " already has an active build operation: " ++ active.text } }

end Operation
end ProtoBuild
