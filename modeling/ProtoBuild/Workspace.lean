import ProtoBuild.Name
import ProtoBuild.Path
import ProtoBuild.StringMap

/-!
# Lakes

A lake is a directory of interface definitions that is built as a whole or in parts.
Its settings stand in the file `lake.toml` at its root.

The main function is `Workspace.relative?`, which says where in the lake a target lies.
Paths are compared component by component after `Path.resolve?`, so a sibling whose
name only begins like the root is outside.
-/

namespace ProtoBuild

/-- How the units of a lake are built. -/
structure BuildSettings where
  /-- Variables set for every action of the build tool. -/
  env : StringMap String := ∅
  isolateUnits : Bool := false
  keepGoing : Bool := false
  clean : Bool := false

/-- Which checks are run on a lake. -/
structure ValidationSettings where
  enabled : Bool := true
  compilation : Bool := true
  lint : Bool := true
  breaking : Bool := true
  format : Bool := false
  deriving DecidableEq, Repr

/-- The settings of the packages of each language; a language without settings has
the usual ones. -/
structure LanguageSettings where
  /-- The group of the Maven packages. -/
  javaGroup : Option String := none
  /-- What the names of the Python packages begin with. -/
  pythonPrefix : Option String := none
  /-- The scope of the npm packages. -/
  npmScope : Option String := none
  deriving DecidableEq, Repr

/-- A lake and its settings. -/
structure Workspace where
  name : String := ""
  version : String := "0.1.0"
  root : String := ""
  build : BuildSettings := {}
  validation : ValidationSettings := {}
  languages : LanguageSettings := {}

namespace Workspace

/-- The file at the root of a lake that holds its settings. -/
def settingsFile : String := "lake.toml"

/-- The resource that a build of the whole lake acts on. -/
def resource (lake : Workspace) : ResourceName :=
  ResourceName.ofLake lake.name

/-- Where in the lake a target lies: the names that lead from the root to it, with
slashes between them, or `.` for the root.  A relative target is taken from the
root.  There is no answer for a target outside the lake. -/
def relative? (lake : Workspace) (target : String) : Option String := do
  let root ← Path.resolve? lake.root
  let full ← Path.resolve? (Path.join lake.root target)
  let steps ← Path.below? root full
  return Path.relativeText steps

/-- What is said of a target outside the lake. -/
def outsideMessage (lake : Workspace) (target : String) : String :=
  "target " ++ target ++ " is not inside lake " ++ lake.root

end Workspace
end ProtoBuild
