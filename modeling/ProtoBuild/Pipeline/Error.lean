import ProtoBuild.Finding
import ProtoBuild.Tool
import ProtoBuild.Workspace

/-!
# What can end a build

Each collaborator of a build fails in ways of its own.  A `PipelineError` is what the
build as a whole ends with; `PipelineError.message` is what is said of it everywhere: in
the record of the phase, to whoever listens, and in the fault of the operation.
-/

namespace ProtoBuild

/-- Why no build files were generated. -/
inductive CodegenError where
  /-- The lake has no build file to begin with. -/
  | notInitialized (missing : String)
  | gazelle (error : ToolError)
  | other (text : String)
  deriving DecidableEq, Repr

/-- What is said of the error. -/
def CodegenError.message : CodegenError → String
  | notInitialized missing => "lake not properly initialized: missing " ++ missing
  | gazelle error => "gazelle failed: " ++ error.message
  | other text => text

/-- Why no units were found. -/
inductive DiscoveryError where
  | notFound (path : String)
  | walk (path message : String)
  deriving DecidableEq, Repr

/-- What is said of the error. -/
def DiscoveryError.message : DiscoveryError → String
  | notFound path => "search path " ++ path ++ " does not exist"
  | walk path message => "failed to walk " ++ path ++ ": " ++ message

/-- Why a lake was not prepared. -/
structure ScaffoldError where
  lake : String
  reason : String
  deriving DecidableEq, Repr

/-- What is said of the error. -/
def ScaffoldError.message (e : ScaffoldError) : String :=
  "scaffolding failed for " ++ e.lake ++ ": " ++ e.reason

/-- What ends a build. -/
inductive PipelineError where
  /-- The build was asked to stop, which is no failure. -/
  | cancelled
  | invalid (errors : List Finding)
  | unitFailed (unit reason : String)
  | codegen (error : CodegenError)
  | validation (error : ToolError)
  | tool (error : ToolError)
  | discovery (error : DiscoveryError)
  | scaffold (error : ScaffoldError)
  /-- The target does not lie in the lake. -/
  | outside (lake : Workspace) (target : String)

namespace PipelineError

/-- What is said of findings that end a build. -/
def invalidMessage (errors : List Finding) : String :=
  match errors with
  | [] => "Validation failed"
  | [e] => "Validation failed: " ++ e.text
  | e :: _ =>
    "Validation failed with " ++ toString errors.length ++ " errors, first: " ++ e.text

/-- What is said of the error. -/
def message : PipelineError → String
  | cancelled => "Operation cancelled"
  | invalid errors => invalidMessage errors
  | unitFailed unit reason => "Bazel build failed for target " ++ unit ++ ": " ++ reason
  | codegen error => "Code generation failed: " ++ error.message
  | validation error => "Validation could not run: validation tool failed: " ++ error.message
  | tool error => error.message
  | discovery error => "Unit discovery failed: " ++ error.message
  | scaffold error => "Workspace preparation failed: " ++ error.message
  | outside lake target => lake.outsideMessage target

/-- Whether the build was asked to stop. -/
def isCancelled : PipelineError → Bool
  | cancelled => true
  | _ => false

end PipelineError
end ProtoBuild
