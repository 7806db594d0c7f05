import ProtoBuild.CommandLine
import ProtoBuild.Console.Report
import ProtoBuild.Document.Build
import ProtoBuild.Pipeline
import ProtoBuild.Toolchain
import ProtoBuild.Value.Json.Writer
import ProtoBuild.Workspace.Lookup

/-!
# Running the command

The command keeps a log in its state directory, which is made ready before anything else
is done; help and the version do not need it.  A build tells its progress on the standard
error and prints its report on the standard output.  The exit code says how it went.

How durations are written in a report is a parameter, as in `Report.lines`.
-/

namespace ProtoBuild
namespace Command

/-- What the command prints about itself. -/
def helpText : String := textOfLines
  ["Protolake - build proto lakes into language packages", "",
    "Usage: protolake [OPTIONS] [COMMAND]", "",
    "Commands:",
    "  build   Generate, validate and build a lake or part of it",
    "  branch  Print the git branch used for artifact versions",
    "  help    Print this message", "",
    "Options:",
    "  -o, --output <OUTPUT>  Output format: text or json",
    "  -h, --help             Print help",
    "  -V, --version          Print version", "",
    "Options of build and branch:",
    "      --lake-path <PATH>     Lake directory, or any directory inside it", "",
    "Options of build:",
    "      --skip-validation      Skip proto validation",
    "      --install-local        Publish built packages to the local repositories",
    "      --isolate              Build every bundle under the target separately",
    "      --continue-on-failure  Keep building remaining bundles after a failure",
    "      --clean                Expunge the build cache first"]

/-- What is printed of the version. -/
def versionText : String := "protolake 0.1.0\n"

/-- What is printed of a command line that cannot be understood. -/
def faultText : String := "error: unusable arguments\n\nFor more information, try '--help'.\n"

/-- The file in the state directory that the log is kept in. -/
def logFile : String := "protolake.log"

/-- Says that something went wrong, and ends with an exit code. -/
def fail (message : String) (exitCode : Nat) : Host.Action Nat := do
  Host.ask (.warn ("Error: " ++ message ++ "\n"))
  return exitCode

/-- A message together with its cause, unless it says the cause already. -/
def withCause (message cause : String) : String :=
  if occursIn cause message then message
  else message ++ "\n\nCaused by:\n    0: " ++ cause

/-- Makes the log ready; the error is what is said if it cannot be kept. -/
def openLog (env : Environment) : Host.Action (Except String Unit) := do
  match env.stateDirectory? with
  | none => return .ok ()
  | some directory =>
    match ← Host.makeFolders directory with
    | .error e =>
      return .error (withCause ("cannot create state directory " ++ directory) e.message)
    | .ok () =>
      match ← Host.ask (.makeFile (Path.join directory logFile)) with
      | .error e => return .error (withCause ("cannot create log in " ++ directory) e.message)
      | .ok () => return .ok ()

/-- The branch of a lake, or the usual one if it cannot be told. -/
def branchOf (git : Git) (root : String) : Host.Action String := do
  match ← git.currentBranch root with
  | .ok name => return name
  | .error _ => return Version.defaultBranch

/-- Prints the result of a build. -/
def printResult (painter : Painter) (duration : UInt64 → String) (format : OutputFormat)
    (result : BuildResult) : Host.Action Unit :=
  Host.ask <| .print <| match format with
    | .text => textOfLines (Report.lines painter duration result)
    | .json => (Document.encode result).toJsonBlock ++ "\n"

/-- The painter for what is printed: the environment decides, or else whether anybody
sees the standard error. -/
def painterFor (env : Environment) : Host.Action Painter := do
  match env.colours? with
  | some enabled => return ⟨enabled⟩
  | none => return ⟨← Host.ask .isTerminal⟩

/-- Builds a target of the lake. -/
def buildOn (env : Environment) (duration : UInt64 → String) (format : OutputFormat)
    (lake : Workspace) (target : String) (options : BuildOptions) : Host.Action Nat := do
  let tools := Toolchain.ofEnvironment env
  let painter ← painterFor env
  let name ← branchOf tools.git lake.root
  let progress := Progress.initial lake target name (← Host.ask .now)
  match ← tools.runBuild painter (Pipeline.run lake target options progress) with
  | (.ok result, _) =>
    printResult painter duration format result
    return result.verdict.exitCode
  | (.error .cancelled, _) => fail "Build cancelled" Verdict.cancelled.exitCode
  | (.error e, _) => fail ("Build failed: " ++ e.message) 1

/-- Prints the branch of a lake, and the version that is built on it. -/
def printBranch (env : Environment) (format : OutputFormat) (lakePath : String) :
    Host.Action Nat := do
  let start ← Workspace.absolute lakePath
  let root := (← Workspace.findRoot start).getD start
  let name ← branchOf (.ofEnvironment env) root
  let lake ← Workspace.load root
  let version : Value := match lake with
    | .ok lake => .string (Version.onBranch lake.version name)
    | .error _ => .null
  Host.ask <| .print <| match format with
    | .text => name ++ "\n"
    | .json =>
      (Value.object [("branch", .string name), ("version", version)]).toJsonBlock ++ "\n"
  return 0

/-- Runs a command and gives its exit code. -/
def run (env : Environment) (duration : UInt64 → String) (format : OutputFormat) :
    Command → Host.Action Nat
  | .build target lakePath options => do
    match ← Workspace.load lakePath with
    | .error e => fail e.message 1
    | .ok lake =>
      let target ← Workspace.absolute <| match target with
        | some path => Path.join lake.root path
        | none => lake.root
      buildOn env duration format lake target options
  | .branch lakePath => printBranch env format lakePath

end Command

/-- Does what a command line stands for and gives the exit code. -/
def Invocation.perform (env : Environment) (duration : UInt64 → String) :
    Invocation → Host.Action Nat
  | fault => do
    Host.ask (.warn Command.faultText)
    return 2
  | help => do
    Host.ask (.print Command.helpText)
    return 0
  | version => do
    Host.ask (.print Command.versionText)
    return 0
  | run format command => do
    match ← Command.openLog env with
    | .error message => Command.fail message 1
    | .ok () => command.run env duration format

end ProtoBuild
