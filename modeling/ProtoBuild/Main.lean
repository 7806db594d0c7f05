import ProtoBuild.Command
import ProtoBuild.CommandLine.Reader
import Std.Time.DateTime.Timestamp

/-!
# The command on a real machine

Each request of a command is answered by the machine that it runs on.  Nothing is decided
here.  Tools are run by whoever embeds the library; this machine starts none, and says so
when it is asked to.
-/

namespace ProtoBuild
namespace Machine

/-- The cause of an error of the machine. -/
def fileError : IO.Error → FileError
  | .noFileOrDirectory .. => .missing
  | .permissionDenied .. => .denied
  | .alreadyExists .. => .alreadyThere
  | .inappropriateType _ 20 _ => .notDirectory
  | .inappropriateType _ 21 _ => .isDirectory
  | .invalidArgument _ 36 _ => .nameTooLong
  | e => .other (toString e)

/-- What has come of an attempt. -/
def attempt {α : Type} (action : IO α) : IO (Except FileError α) := do
  try return .ok (← action)
  catch e => return .error (fileError e)

/-- What kind of thing a path leads to. -/
def kind (path : String) : IO (Option FileKind) := do
  try
    let real ← IO.FS.realPath path
    return match (← real.metadata).type with
      | .file => some .file
      | .dir => some .folder
      | _ => some .special
  catch _ => return none

/-- The files and directories in a directory; links are neither. -/
def entries (path : String) : IO (Except FileError (List (String × FileKind))) :=
  match Directory.bounded path with
  | .error e => return .error e
  | .ok path => attempt do
    let real ← IO.FS.realPath path
    (← real.readDir).toList.filterMapM fun entry => do
      match (← entry.path.symlinkMetadata).type with
      | .file => return some (entry.fileName, .file)
      | .dir => return some (entry.fileName, .folder)
      | _ => return none

/-- What lies in a directory, at all depths.  Only directories whose names are entered are
read. -/
partial def survey (isEntered : FileName → Bool) (path : String) :
    ExceptT Unreadable IO Directory := do
  let found ← ExceptT.mk do return (← entries path).mapError fun e => ⟨path, e⟩
  found.foldlM (fun d (name, kind) => do
    let key := Utf8.encode name
    match kind with
    | .folder =>
      if isEntered key then
        return d.set key (.folder (← survey isEntered (Path.join path name)))
      else return d
    | _ => return d.set key (.file [])) .empty

/-- The present time, in milliseconds. -/
def now : IO UInt64 := do
  return UInt64.ofInt (← Std.Time.Timestamp.now).toMillisecondsSinceUnixEpoch.toInt

/-- Answers what is asked of the machine. -/
def answer : (q : Host.Request) → IO q.Answer
  | .kind path => kind path
  | .canonical path => do
    return (← attempt (IO.FS.realPath path)).toOption.map toString
  | .currentDirectory => do return toString (← IO.currentDir)
  | .read path => attempt do return (← IO.FS.readBinFile path).toList
  | .survey path isEntered => (survey isEntered path).run
  | .makeFolder path => attempt (IO.FS.createDir path)
  | .makeFile path => attempt do
    let _ ← IO.FS.Handle.mk path .append
  | .spawn _ => return .notStarted (.other "this machine starts no tools")
  | .now => now
  | .isTerminal => do (← IO.getStderr).isTty
  | .print text => IO.print text
  | .warn text => IO.eprint text

/-- The variables of the process that the command looks at. -/
def environment : IO Environment := do
  Environment.names.foldlM (fun env name => do
    match ← IO.getEnv name with
    | some value => return env.insert name value
    | none => return env) ∅

end Machine
end ProtoBuild

/-- Runs the command that the arguments stand for. -/
def main (arguments : List String) : IO UInt32 := do
  let env ← ProtoBuild.Machine.environment
  let invocation := ProtoBuild.CommandLine.read arguments
  let work := invocation.perform env ProtoBuild.Duration.format
  return UInt32.ofNat (← work.answerWith (m := IO) ProtoBuild.Machine.answer)
