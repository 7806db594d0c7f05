import ProtoBuild.Pipeline.Noting

/-!
# The generator of build files

Gazelle is an action of the build tool.  A lake may have a wrapper of its own for it; where
the wrapper fails, the generator itself is run, and after it the pass that finds the units,
whose failure is only noted.

How files are looked for and actions are run is a parameter.
-/

namespace ProtoBuild
namespace Gazelle

/-- How many lines of tool output are kept. -/
def keptLines : Nat := 20

/-- The file that a lake needs to begin with. -/
def buildFile (lake : Workspace) : String :=
  Path.join lake.root "BUILD.bazel"

variable {m : Type → Type} [Monad m]

/-- Runs the generator itself, and the pass that finds the units. -/
def generatePlainly (run : String → m (Except ToolError ToolOutput)) :
    Noting CodegenError m Unit := do
  Noting.subPhase "Running standard gazelle"
  match ← Noting.perform (run "//:gazelle") with
  | .error e => throw (.gazelle e)
  | .ok output => Noting.log (output.tail keptLines)
  Noting.subPhase "Running protolake-gazelle"
  match ← Noting.perform (run "//:gazelle-protolake") with
  | .error e => Noting.log ("protolake-gazelle failed: " ++ e.message)
  | .ok _ => pure ()
  Noting.log "Gazelle completed"

/-- Generates the build files of a lake. -/
def generate (isPresent : String → m Bool) (run : String → m (Except ToolError ToolOutput))
    (lake : Workspace) : Noting CodegenError m Unit := do
  if ! (← Noting.perform (isPresent (buildFile lake))) then
    throw (.notInitialized (buildFile lake))
  Noting.subPhase "Running gazelle wrapper"
  match ← Noting.perform (run "//tools:gazelle_wrapper") with
  | .ok output =>
    Noting.log (output.tail keptLines)
    Noting.log "Gazelle completed"
  | .error e =>
    Noting.log ("Gazelle wrapper failed: " ++ e.message)
    generatePlainly run

end Gazelle
end ProtoBuild
