import ProtoBuild.Environment
import ProtoBuild.Host

/-!
# The build tool

Bazel is run in the root of a lake.  What it should do comes after its startup options.  A
build is judged by its caller, since a build that has failed may still have built a part;
of all other runs an exit code other than zero is an error.
-/

namespace ProtoBuild

/-- The build tool and its settings. -/
structure Bazel where
  program : String := "bazel"
  startupOptions : List String := []
  /-- What every build is given. -/
  buildOptions : List String := []
  /-- Where the results of builds are shared. -/
  remoteCache : Option String := none
  /-- After how many milliseconds a run is stopped. -/
  timeout : Option Nat := none
  deriving DecidableEq, Repr

namespace Bazel

/-- The time limit that the environment sets, in seconds. -/
def timeoutSeconds? (env : Environment) : Option UInt64 :=
  (env.word? "PL_TOOL_TIMEOUT_SECS").filter (· != 0)

/-- The tool and the settings that the environment names. -/
def ofEnvironment (env : Environment) : Bazel where
  program := (env.nonBlank? "PL_BAZEL_COMMAND").getD "bazel"
  startupOptions := (env.words? "PL_BAZEL_STARTUP_OPTIONS").getD []
  buildOptions := (env.words? "PL_BAZEL_OPTIONS").getD ["--jobs=4"]
  remoteCache := env.nonBlank? "PL_REMOTE_CACHE_URL"
  timeout := (timeoutSeconds? env).map fun n => n.toNat * 1000

/-- What a build is given to share its results. -/
def cacheOptions (url : String) : List String :=
  ["--remote_cache=" ++ url, "--remote_upload_local_results=true"]

/-- The arguments of a build of what a pattern stands for. -/
def buildArguments (bazel : Bazel) (arguments : List String) (pattern : String) : List String :=
  "build" :: bazel.buildOptions ++ ((bazel.remoteCache.map cacheOptions).getD []) ++ arguments ++
    ["--", pattern]

/-- The arguments of a run of the action of a label. -/
def runArguments (label : String) (arguments : List String) : List String :=
  "run" :: label :: if arguments.isEmpty then [] else "--" :: arguments

/-- Runs the tool in the root of a lake. -/
def invoke (bazel : Bazel) (root description : String) (arguments : List String) :
    Host.Action (Except ToolError ToolOutput) :=
  let command : ToolCommand :=
    { program := bazel.program
      arguments := bazel.startupOptions ++ arguments
      directory := some root
      timeout := bazel.timeout }
  Host.runTool command description

/-- Runs the tool and takes any other exit code than zero for an error. -/
def invokeChecked (bazel : Bazel) (root description : String) (arguments : List String) :
    Host.Action (Except ToolError ToolOutput) := do
  return (← bazel.invoke root description arguments).bind (·.check description)

/-- Builds what a pattern stands for. -/
def build (bazel : Bazel) (root : String) (arguments : List String) (pattern : String) :
    Host.Action (Except ToolError ToolOutput) :=
  bazel.invoke root ("bazel build " ++ pattern) (bazel.buildArguments arguments pattern)

/-- Lists the labels that an expression stands for. -/
def query (bazel : Bazel) (root expression : String) :
    Host.Action (Except ToolError (List String)) := do
  return (← bazel.invokeChecked root "bazel query" ["query", expression]).map ToolOutput.lines

/-- Clears the cache. -/
def clean (bazel : Bazel) (root : String) : Host.Action (Except ToolError Unit) := do
  return (← bazel.invokeChecked root "bazel clean" ["clean", "--expunge"]).map fun _ => ()

/-- Runs the action of a label. -/
def run (bazel : Bazel) (root label : String) (arguments : List String) :
    Host.Action (Except ToolError ToolOutput) :=
  bazel.invokeChecked root ("bazel run " ++ label) (runArguments label arguments)

end Bazel
end ProtoBuild
