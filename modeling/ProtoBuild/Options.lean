import ProtoBuild.Workspace

/-!
# What a build is asked to do

The options of a request and the settings of the lake are merged: either of the two
can turn a behaviour on, and neither can turn it off.
-/

namespace ProtoBuild

/-- The options of one request. -/
structure BuildOptions where
  skipValidation : Bool := false
  /-- Publish what was built. -/
  installLocal : Bool := false
  /-- Build every unit below the target on its own. -/
  isolate : Bool := false
  continueOnFailure : Bool := false
  clean : Bool := false
  deriving DecidableEq, Repr, Inhabited

/-- Which units a target stands for. -/
inductive ResolutionMode where
  /-- The target itself, as one unit. -/
  | direct
  /-- Every unit at or below the target. -/
  | isolated
  deriving DecidableEq, Repr

/-- The name of a mode. -/
def ResolutionMode.text : ResolutionMode → String
  | direct => "Direct"
  | isolated => "Isolated"

/-- What the build phase goes by. -/
structure RunOptions where
  mode : ResolutionMode := .direct
  continueOnFailure : Bool := false
  clean : Bool := false
  deriving DecidableEq, Repr

/-- The options of a request together with the settings of the lake. -/
def BuildOptions.onLake (o : BuildOptions) (lake : Workspace) : RunOptions where
  mode := if o.isolate || lake.build.isolateUnits then .isolated else .direct
  continueOnFailure := o.continueOnFailure || lake.build.keepGoing
  clean := o.clean || lake.build.clean

end ProtoBuild
