import ProtoBuild.Host
import ProtoBuild.Pipeline.Error

/-!
# Finding the units of a lake

A directory that holds the file `bundle.yaml` is a unit.  Discovery looks at a directory
and all that lies below it, apart from hidden directories and those that the build tool
makes.  The directory it starts in may itself be one of these.  A directory that would be
looked at and cannot be read ends the search.

Names are compared with the marker, and paths with the root, as bytes.  Whether a directory
is hidden is seen from what its name shows as, and so are the paths of the units: two units
whose names show as the same text are listed by the same path.
-/

namespace ProtoBuild
namespace Discovery

/-- The file that makes a directory a unit. -/
def marker : FileName := Utf8.encode "bundle.yaml"

/-- Whether a directory of this name is not entered. -/
def isHidden (name : FileName) : Bool :=
  beginsWith "." name.text || beginsWith "bazel-" name.text

/-- The places of the units in a directory that lies at a place itself. -/
def units (place : List FileName) : Directory → List (List FileName)
  | .empty => []
  | .file name _ rest =>
    if name = marker then place :: units place rest else units place rest
  | .folder name inside rest =>
    if isHidden name then units place rest
    else units (place ++ [name]) inside ++ units place rest

/-- The directory in which a search begins; `.` is the lake as a whole. -/
def startOf (root search : String) : String :=
  if search = "." then root else Path.join root search

/-- The components of a path, as bytes. -/
def stepsOf (path : String) : List (List UInt8) :=
  (Path.components path).map fun step => Utf8.encode (String.ofList step.text)

/-- The path that steps show as, `.` where there are none. -/
def shown (steps : List (List UInt8)) : String :=
  if steps.isEmpty then "." else joinStrings '/' (steps.map FileName.text)

/-- The path of a place below a start, relative to the root, if it lies there. -/
def unitPath? (root start : String) (place : List FileName) : Option String :=
  (Path.below? (stepsOf root) (stepsOf start ++ place)).map shown

/-- The units in a directory, by their paths relative to the root, in order. -/
def unitPaths (root start : String) (d : Directory) : List String :=
  ((units [] d).filterMap (unitPath? root start)).mergeSort fun a b => decide (a ≤ b)

/-- Finds the units at or below a path. -/
def find (root search : String) : Host.Action (Except DiscoveryError (List String)) := do
  let start := startOf root search
  if ! (← Host.isFolder start) then return .error (.notFound start)
  match ← Host.ask (.survey start fun name => ! isHidden name) with
  | .ok d => return .ok (unitPaths root start d)
  | .error e => return .error (.walk start e.message)

end Discovery
end ProtoBuild
