import ProtoBuild.Text.Split

/-!
# How the build of a unit went

The build tool keeps going after a failure, so its exit code alone does not tell
whether anything was built.  It prints one of a few sentences when something was.
-/

namespace ProtoBuild

/-- How the build of a unit went. -/
inductive BuildOutcome where
  | success
  /-- Not all that was asked for was built, but some of it was. -/
  | partialSuccess
  | failure
  deriving DecidableEq, Repr

namespace BuildOutcome

/-- What the build tool prints when it has built a part of what was asked for. -/
def partialMarkers : List String :=
  ["Build succeeded for only",
   "command succeeded, but there were errors parsing the target pattern",
   "command succeeded, but not all targets were analyzed"]

/-- The outcome that an exit code and the output of the tool show. -/
def classify (exitCode : Int) (output : String) : BuildOutcome :=
  if exitCode = 0 then .success
  else if partialMarkers.any fun m => occursIn m output then .partialSuccess
  else .failure

/-- Whether a unit with this outcome counts as built. -/
def isUsable : BuildOutcome → Bool
  | failure => false
  | _ => true

/-- The name of an outcome. -/
def text : BuildOutcome → String
  | success => "Success"
  | partialSuccess => "PartialSuccess"
  | failure => "Failure"

end BuildOutcome
end ProtoBuild
