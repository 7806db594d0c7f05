import ProtoBuild.Artifact
import ProtoBuild.Workspace
import ProtoBuild.Resolution

/-!
# Which unit a publish action belongs to, and what it publishes

The build tool names an action by a label, `//package:rule`.  The action belongs to
the deepest unit whose directory holds the package (`owner?`), and the end of the rule
name says for which language it publishes (`Artifact.ofLabel?`).
-/

namespace ProtoBuild

/-- The package and the rule of a label. -/
structure Label where
  package : List Char
  rule : List Char
  deriving DecidableEq, Repr

namespace Label

/-- The text without the double slashes it begins with. -/
def trimSlashPairs : List Char → List Char
  | '/' :: '/' :: rest => trimSlashPairs rest
  | cs => cs

/-- What follows the last separator, or the whole text. -/
def afterLast (sep : Char) (cs : List Char) : List Char :=
  match Text.splitLast? sep cs with
  | some (_, rest) => rest
  | none => cs

/-- The label a text stands for.  Without a colon the rule has the name of the last
directory. -/
def ofString (s : String) : Label :=
  let cs := trimSlashPairs (s.toList.dropWhile (· == '@'))
  match Text.splitLast? ':' cs with
  | some (package, rule) => ⟨package, rule⟩
  | none => ⟨cs, afterLast '/' cs⟩

/-- Whether the package of a label lies in the directory of a unit. -/
def isIn (label : Label) (unit : String) : Bool :=
  unit == "." || label.package == unit.toList ||
    (unit.toList ++ ['/']).isPrefixOf label.package

/-- The part of the rule name that names the language. -/
def languageChars (label : Label) : List Char :=
  afterLast '_' ((Text.before? "_publish".toList label.rule).getD label.rule)

end Label

/-- The deepest of some units, the last of those that are equally deep. -/
def deepest? : List String → Option String
  | [] => none
  | u :: us =>
    match deepest? us with
    | none => some u
    | some v => if Resolution.depth v < Resolution.depth u then some u else some v

/-- The deepest of some units that the package of a label lies in. -/
def owner? (units : List String) (label : String) : Option String :=
  deepest? (units.filter (Label.ofString label).isIn)

/-- The place of the package that a publish action leaves, if it is for a language
that is known. -/
def Artifact.ofLabel? (lake : Workspace) (unit label version : String) : Option Artifact :=
  let path := (if unit = "." then lake.name else unit).toList
  let hyphens := String.ofList (Text.replaceChar '/' '-' path)
  let language := String.ofList (Label.ofString label).languageChars
  if language = "java" ∨ language = "maven" then
    some (.maven (lake.languages.javaGroup.getD ("com." ++ lake.name)) hyphens version)
  else if language = "py" ∨ language = "python" then
    some (.python
      (lake.languages.pythonPrefix.getD "" ++ String.ofList (Text.replaceChar '/' '_' path))
      version)
  else if language = "js" ∨ language = "ts" ∨ language = "npm" then
    let scope := lake.languages.npmScope.getD ""
    some (.npm (if scope.isEmpty then hyphens else scope ++ "/" ++ hyphens) version)
  else none

end ProtoBuild
