import ProtoBuild.Host
import ProtoBuild.Workspace.Settings

/-!
# Finding a lake

The root of a lake is the nearest directory with settings, at or above a path.  The path
is made absolute first: what can be followed is resolved by the machine, and all else is
taken as it is written, since it may not be there yet.
-/

namespace ProtoBuild

/-- Why there is no lake. -/
inductive LakeError where
  | notFound (start : String)
  | unreadable (path reason : String)
  /-- The settings at a root are of no use. -/
  | settings (error : SettingsError)
  deriving DecidableEq, Repr

/-- What is said of settings that are of no use. -/
def SettingsError.message : SettingsError → String
  | .malformed => "invalid lake.toml: not a table of known settings"
  | .nameless root => SettingsError.namelessMessage root

/-- What is said of the error. -/
def LakeError.message : LakeError → String
  | notFound start => "no lake.toml found in " ++ start ++ " or any parent directory"
  | unreadable path reason => "failed to read " ++ path ++ ": " ++ reason
  | settings error => "invalid lake configuration: " ++ error.message

namespace Workspace

/-- The absolute form of a path, which need not lead anywhere. -/
def absolute (path : String) : Host.Action String := do
  match ← Host.ask (.canonical path) with
  | some resolved => return resolved
  | none =>
    if path.isEmpty then return path
    else return Path.tidy (Path.join (← Host.ask .currentDirectory) path)

/-- The first of some directories that holds settings. -/
def firstWithSettings : List String → Host.Action (Option String)
  | [] => pure none
  | place :: rest => do
    if ← Host.isFile (Path.join place settingsFile) then return some place
    firstWithSettings rest

/-- The root of the lake that a path lies in. -/
def findRoot (start : String) : Host.Action (Option String) :=
  firstWithSettings (Path.ancestors start)

/-- The lake that some settings, as bytes, describe. -/
def ofBytes (root : String) (bytes : List UInt8) : Except LakeError Workspace :=
  match Utf8.decode? bytes with
  | none =>
    .error (.unreadable (Path.join root settingsFile) "stream did not contain valid UTF-8")
  | some text =>
    match ofSettings root (String.ofList text) with
    | .ok lake => .ok lake
    | .error e => .error (.settings e)

/-- The lake that a path lies in. -/
def load (path : String) : Host.Action (Except LakeError Workspace) := do
  let start ← absolute path
  match ← findRoot start with
  | none => return .error (.notFound start)
  | some root =>
    match ← Host.ask (.read (Path.join root settingsFile)) with
    | .error e => return .error (.unreadable (Path.join root settingsFile) e.message)
    | .ok bytes => return ofBytes root bytes

end Workspace
end ProtoBuild
