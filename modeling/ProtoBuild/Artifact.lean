/-!
# Published packages

An `Artifact` is the place of a package in the repository of its language.
-/

namespace ProtoBuild

/-- The place of a published package. -/
inductive Artifact where
  | maven (group name version : String)
  | python (package version : String)
  | npm (package version : String)
  deriving DecidableEq, Repr

namespace Artifact

/-- The language a package is for.  A unit has at most one package of each. -/
def language : Artifact → String
  | maven .. => "java"
  | python .. => "python"
  | npm .. => "typescript"

/-- How a package is written, in the manner of its own repository. -/
def text : Artifact → String
  | maven group name version => group ++ ":" ++ name ++ ":" ++ version
  | python package version => package ++ "==" ++ version
  | npm package version => package ++ "@" ++ version

end Artifact
end ProtoBuild
