import ProtoBuild.Environment
import ProtoBuild.Finding.Location
import ProtoBuild.Host
import ProtoBuild.Pipeline.Noting

/-!
# The checker of the definitions

Buf runs up to four checks on a lake, one after another.  A check that exits with another
code than zero has found something, and each line that it printed is a finding.  The
compilation and the comparison with the last commit make errors of their findings, the
others warnings.

A lake can have the checks turned off, and a lake without a `buf.yaml` has none to run.
-/

namespace ProtoBuild

/-- The checker of the definitions. -/
structure Buf where
  program : String := "buf"
  deriving DecidableEq, Repr

namespace Buf

/-- The checker that the environment names. -/
def ofEnvironment (env : Environment) : Buf where
  program := (env.nonBlank? "PL_BUF_COMMAND").getD "buf"

/-- What the definitions are compared with. -/
def against : String := ".git#branch=HEAD~1"

/-- A run of the checker that may find something. -/
abbrev Checking (α : Type) := Noting ToolError Host.Action α

/-- Runs a command of the checker in the root of a lake for at most a minute. -/
def invoke (buf : Buf) (root name : String) (options : List String) : Checking ToolOutput := do
  let command : ToolCommand :=
    { program := buf.program
      arguments := name :: options
      directory := some root
      timeout := some 60000 }
  match ← Noting.perform (Host.runTool command ("buf " ++ name)) with
  | .ok output => pure output
  | .error e => throw e

/-- Whether the definitions compile. -/
def compilation (buf : Buf) (root : String) : Checking (List Finding) := do
  Noting.subPhase "Running proto compilation checks"
  let output ← buf.invoke root "build" []
  if output.success then return []
  Noting.log ("Compilation errors found:\n" ++ trimmed output.text)
  return Finding.ofOutput .compilation .error output.text

/-- Whether the definitions keep to the rules of style. -/
def lint (buf : Buf) (root : String) : Checking (List Finding) := do
  Noting.subPhase "Running lint checks"
  let output ← buf.invoke root "lint" []
  if output.success then return []
  let found := Finding.ofOutput .lint .warning output.text
  Noting.log ("Lint validation found " ++ toString found.length ++ " issues")
  return found

/-- Whether the definitions can still be used by those who used the last ones. -/
def breaking (buf : Buf) (history : Host.Action Bool) (root : String) :
    Checking (List Finding) := do
  if ! (← Noting.perform history) then
    Noting.log "No previous commit, skipping breaking change detection"
    return []
  Noting.subPhase "Running breaking change detection"
  let output ← buf.invoke root "breaking" ["--against", against]
  if output.success then return []
  let found := Finding.ofOutput .breaking .error output.text
  Noting.log ("Breaking change detection found " ++ toString found.length ++ " issues")
  return found

/-- What is said of definitions that are not formatted. -/
def formatMessage : String := "Format issues found. Run 'buf format' to fix."

/-- Whether the definitions are formatted. -/
def format (buf : Buf) (root : String) : Checking (List Finding) := do
  Noting.subPhase "Running format checks"
  let output ← buf.invoke root "format" ["--diff", "--exit-code"]
  if output.success then return []
  Noting.log "Format check found issues. Run 'buf format' to fix."
  return [{ check := .format, severity := .warning, message := formatMessage }]

/-- Runs a check if it is turned on. -/
def when (enabled : Bool) (check : Checking (List Finding)) : Checking (List Finding) :=
  if enabled then check else pure []

/-- Runs all checks that are turned on. -/
def runChecks (buf : Buf) (history : Host.Action Bool) (lake : Workspace) :
    Checking CheckReport := do
  let settings := lake.validation
  let compiled ← when settings.compilation (buf.compilation lake.root)
  let linted ← when settings.lint (buf.lint lake.root)
  let compared ← when settings.breaking (buf.breaking history lake.root)
  let formatted ← when settings.format (buf.format lake.root)
  return .ofFindings (compiled ++ linted ++ compared ++ formatted)

/-- Checks the definitions of a lake. -/
def check (buf : Buf) (history : Host.Action Bool) (lake : Workspace) :
    Checking CheckReport := do
  if ! lake.validation.enabled then
    return .ofSkip "Validation disabled for this lake"
  if ! (← Noting.perform (Host.present (Path.join lake.root "buf.yaml"))) then
    return .ofSkip "No buf.yaml found, skipping validation"
  buf.runChecks history lake

end Buf
end ProtoBuild
