import ProtoBuild.Directory.Follow
import ProtoBuild.Program
import ProtoBuild.Tool

/-!
# What the command asks of its machine

The command reads and makes files, runs tools, reads the clock and prints.  These are the
requests of `Host.interface`; whoever answers them is the machine, be it a real one or one
in memory.  So a statement about a program over this interface that holds for all answers
holds whatever the tools do and whatever lies in the file system.

`Host.runTool` is the only way in which a tool is run.
-/

namespace ProtoBuild

/-- What kind of thing lies at the end of a path. -/
inductive FileKind where
  | file
  | folder
  /-- A device, a pipe and the like. -/
  | special
  deriving DecidableEq, Repr

/-- A tool to be run. -/
structure ToolCommand where
  /-- A path of the tool, or a name that is looked up. -/
  program : String
  arguments : List String
  /-- The directory to run it in, if not the present one. -/
  directory : Option String := none
  /-- After how many milliseconds it is stopped. -/
  timeout : Option Nat := none
  deriving DecidableEq, Repr

/-- The texts that are handed over to run a tool. -/
def ToolCommand.texts (command : ToolCommand) : List String :=
  command.program :: (command.arguments ++ command.directory.toList)

/-- How the run of a tool has ended. -/
inductive ToolEnding where
  /-- With an exit code, or by a signal, and with what it printed until then. -/
  | exited (code : Option Int) (out err : List UInt8)
  | timedOut
  | notStarted (reason : FileError)
  deriving DecidableEq, Repr

namespace Host

/-- What can be asked of a machine. -/
inductive Request where
  /-- What kind of thing a path leads to, if to anything. -/
  | kind (path : String)
  /-- The path with all links and steps up resolved. -/
  | canonical (path : String)
  | currentDirectory
  | read (path : String)
  /-- What lies in a directory, at all depths.  Only the names matter.  Directories below
  it are read if their names are to be entered, and nothing needs to be listed in others. -/
  | survey (path : String) (isEntered : FileName → Bool)
  /-- Make a directory whose parent is there. -/
  | makeFolder (path : String)
  /-- Make a file unless it is there. -/
  | makeFile (path : String)
  | spawn (command : ToolCommand)
  | now
  /-- Whether the standard error is a terminal. -/
  | isTerminal
  /-- Print on the standard output. -/
  | print (text : String)
  /-- Print on the standard error. -/
  | warn (text : String)

/-- The answers to a request. -/
abbrev Request.Answer : Request → Type
  | kind _ => Option FileKind
  | canonical _ => Option String
  | currentDirectory => String
  | read _ => Except FileError (List UInt8)
  | survey .. => Except Unreadable Directory
  | makeFolder _ => Except FileError Unit
  | makeFile _ => Except FileError Unit
  | spawn _ => ToolEnding
  | now => UInt64
  | isTerminal => Bool
  | print _ => Unit
  | warn _ => Unit

/-- The requests to a machine. -/
def interface : Interface where
  Request := Request
  Answer := Request.Answer

/-- A program that runs on a machine. -/
abbrev Action (α : Type) := Program interface α

/-- Asks the machine for something. -/
def ask (q : Request) : Action q.Answer :=
  Program.request (I := interface) q

/-- Whether a path leads to something. -/
def present (path : String) : Action Bool := do
  return (← ask (.kind path)).isSome

/-- Whether a path leads to a file. -/
def isFile (path : String) : Action Bool := do
  return (← ask (.kind path)) == some .file

/-- Whether a path leads to a directory. -/
def isFolder (path : String) : Action Bool := do
  return (← ask (.kind path)) == some .folder

/-- What has come of running a tool.  An exit code other than zero is no error. -/
def outcome (description : String) (timeout : Option Nat) :
    ToolEnding → Except ToolError ToolOutput
  | .exited code out err => .ok (.capture code out err)
  | .timedOut => .error (.timedOut description (timeout.getD 0 / 1000))
  | .notStarted reason => .error (.notStarted description reason.message)

/-- Runs a tool. -/
def runTool (command : ToolCommand) (description : String) :
    Action (Except ToolError ToolOutput) := do
  return outcome description command.timeout (← ask (.spawn command))

/-- Makes a directory that may be there already, as may be found after an attempt. -/
def makeFolderOrFind (path : String) : Action (Except FileError Unit) := do
  match ← ask (.makeFolder path) with
  | .ok () => return .ok ()
  | .error e => return if ← isFolder path then .ok () else .error e

/-- Makes the first of some directories, each the parent of the one before it, and as
many of the others as are needed for it. -/
def makeFolderAmong : List String → Action (Except FileError Unit)
  | [] => pure (.error (.other "failed to create whole tree"))
  | path :: parents => do
    if path.isEmpty then return .ok ()
    match ← ask (.makeFolder path) with
    | .ok () => return .ok ()
    | .error .missing =>
      match ← makeFolderAmong parents with
      | .ok () => makeFolderOrFind path
      | .error e => return .error e
    | .error e => return if ← isFolder path then .ok () else .error e

/-- Makes a directory and the directories above it, as far as they are missing. -/
def makeFolders (path : String) : Action (Except FileError Unit) :=
  makeFolderAmong (Path.ancestors path)

end Host
end ProtoBuild
