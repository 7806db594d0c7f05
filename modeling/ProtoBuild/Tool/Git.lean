import ProtoBuild.Environment
import ProtoBuild.Host

/-!
# The version control tool

Git is asked for the name of the branch that is checked out, and whether there is a commit
before the present one.  A tool that cannot answer the second question has no history to
compare with.
-/

namespace ProtoBuild

/-- The version control tool. -/
structure Git where
  program : String := "git"
  deriving DecidableEq, Repr

/-- Why there is no branch. -/
inductive BranchError where
  | tool (error : ToolError)
  /-- The lake at a root is on no branch. -/
  | detached (root : String)
  deriving DecidableEq, Repr

/-- What is said of a lake that is on no branch. -/
def BranchError.detachedMessage (root : String) : String :=
  "repository at " ++ root ++ " has a detached HEAD"

namespace Git

/-- The tool that the environment names. -/
def ofEnvironment (env : Environment) : Git where
  program := (env.nonBlank? "PL_GIT_COMMAND").getD "git"

/-- The tool, run on the lake at a root for at most half a minute. -/
def command (git : Git) (root : String) (arguments : List String) : ToolCommand where
  program := git.program
  arguments := "-C" :: root :: arguments
  timeout := some 30000

/-- What the runs are called. -/
def description : String := "git rev-parse"

/-- The branch that the output of the tool names. -/
def branchOf (root : String) (output : ToolOutput) : Except BranchError String :=
  match output.check description with
  | .error e => .error (.tool e)
  | .ok output =>
    let branch := trimmed output.text
    if branch.isEmpty || branch == "HEAD" then .error (.detached root) else .ok branch

/-- The branch that is checked out. -/
def currentBranch (git : Git) (root : String) : Host.Action (Except BranchError String) := do
  match ← Host.runTool (git.command root ["rev-parse", "--abbrev-ref", "HEAD"]) description with
  | .error e => return .error (.tool e)
  | .ok output => return branchOf root output

/-- Whether there is a commit before the present one. -/
def hasHistory (git : Git) (root : String) : Host.Action Bool := do
  let command := git.command root ["rev-parse", "--verify", "--quiet", "HEAD~1"]
  match ← Host.runTool command description with
  | .error _ => return false
  | .ok output => return output.success

end Git
end ProtoBuild
