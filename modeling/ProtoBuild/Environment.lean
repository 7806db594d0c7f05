import ProtoBuild.Path
import ProtoBuild.StringMap
import ProtoBuild.Text.Digit

/-!
# The environment

The variables that a process was started with, and the settings that are read from them.
Those of a tool are read where the tool is.
-/

namespace ProtoBuild

/-- The variables of a process. -/
abbrev Environment := StringMap String

namespace Environment

/-- The variables that anything here looks at. -/
def names : List String :=
  ["PL_BUILD_WORKERS", "PL_OPERATION_TTL_MINUTES", "PL_BAZEL_COMMAND",
    "PL_BAZEL_STARTUP_OPTIONS", "PL_BAZEL_OPTIONS", "PL_REMOTE_CACHE_URL",
    "PL_TOOL_TIMEOUT_SECS", "PL_BUF_COMMAND", "PL_GIT_COMMAND", "PL_STATE_DIR",
    "XDG_STATE_HOME", "HOME", "NO_COLOR", "COLOR"]

/-- A variable that is set and not blank, trimmed. -/
def nonBlank? (env : Environment) (name : String) : Option String :=
  match env.get? name with
  | none => none
  | some s => if (trimmed s).isEmpty then none else some (trimmed s)

/-- The words of a variable that is set and not blank. -/
def words? (env : Environment) (name : String) : Option (List String) :=
  (env.nonBlank? name).map fun s => (Text.words s.toList).map String.ofList

/-- A variable that holds a number of sixty-four bits, perhaps with blanks around. -/
def word? (env : Environment) (name : String) : Option UInt64 :=
  (env.get? name).bind fun s => Text.word64? (Text.trim s.toList)

/-- The largest worker pool there can be. -/
def maxWorkers : UInt64 := 2305843009213693951

/-- A number of workers, moved into the range of possible ones. -/
def clampWorkers (n : UInt64) : UInt64 :=
  if n < 1 then 1 else if maxWorkers < n then maxWorkers else n

/-- The size of the worker pool. -/
def workers (env : Environment) : UInt64 :=
  match env.word? "PL_BUILD_WORKERS" with
  | some n => clampWorkers n
  | none => 4

/-- For how many seconds a finished operation stays known. -/
def retentionSeconds (env : Environment) : UInt64 :=
  match env.word? "PL_OPERATION_TTL_MINUTES" with
  | some minutes => Text.clampWord (minutes.toNat * 60)
  | none => 600

/-- The directory in which the command keeps its log. -/
def stateDirectory? (env : Environment) : Option String :=
  match env.get? "PL_STATE_DIR", env.get? "XDG_STATE_HOME", env.get? "HOME" with
  | some path, _, _ => some path
  | none, some path, _ => some (Path.join path "protolake")
  | none, none, some path => some (Path.join path ".local/state/protolake")
  | none, none, none => none

/-- Whether a variable is switched on. -/
def isOn (env : Environment) (name : String) : Bool :=
  env.get? name == some "1"

/-- Whether texts are to be coloured, if the environment says so. -/
def colours? (env : Environment) : Option Bool :=
  if env.isOn "NO_COLOR" then some false
  else if env.isOn "COLOR" then some true
  else none

end Environment
end ProtoBuild
