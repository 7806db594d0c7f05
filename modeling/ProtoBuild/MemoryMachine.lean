import ProtoBuild.Host

/-!
# A machine in memory

A memory machine answers what a command asks of its machine.  It has a tree of files, and
tools that are installed at places in it.  What a tool does is given by rules: the first
rule whose text stands in the arguments of a call says how the call ends.  Calls and what
is printed are kept.

A tool is found as on a real machine: a program with a slash in it is a path, and any other
one is looked up in the directories of the search path (`lookUp`).
-/

namespace ProtoBuild
namespace MemoryMachine

/-- How a tool ends if a text stands in its arguments. -/
structure Rule where
  needle : String := ""
  code : Int := 0
  out : List UInt8 := []
  err : List UInt8 := []
  /-- How many milliseconds the tool takes. -/
  delay : Nat := 0
  /-- Whether a signal ends the tool. -/
  signalled : Bool := false
  deriving DecidableEq, Repr

/-- A tool and its rules. -/
structure Installed where
  name : String
  place : List FileName
  rules : List Rule := []
  deriving DecidableEq, Repr

/-- A call of a tool. -/
structure ToolCall where
  tool : String
  arguments : List String
  directory : String
  deriving DecidableEq, Repr

end MemoryMachine

open MemoryMachine in
/-- A machine in memory. -/
structure MemoryMachine where
  root : Directory := .empty
  /-- The names that lead to the present directory. -/
  here : List String := []
  tools : List Installed := []
  /-- The directories in which tools are looked up. -/
  searchPath : List String := []
  clock : UInt64 := 0
  calls : List ToolCall := []
  /-- What was printed on the standard output. -/
  out : String := ""
  /-- What was printed on the standard error. -/
  err : String := ""

namespace MemoryMachine

/-- The machine with a directory at a place, and those above it. -/
def withFolder (m : MemoryMachine) (place : List String) : MemoryMachine :=
  { m with root := m.root.modifyFolder id (FileName.ofTexts place) }

/-- The machine with a file of a name in the directory at a place. -/
def withFile (m : MemoryMachine) (place : List String) (name : String) (content : List UInt8) :
    MemoryMachine :=
  { m with
    root := m.root.modifyFolder (·.set (Utf8.encode name) (.file content))
      (FileName.ofTexts place) }

/-- The machine with a tool installed in the directory at a place. -/
def withTool (m : MemoryMachine) (place : List String) (name : String) (rules : List Rule) :
    MemoryMachine :=
  let tool : Installed :=
    { name := name, place := FileName.ofTexts (place ++ [name]), rules := rules }
  { m.withFile place name [] with tools := m.tools ++ [tool] }

/-- The tool that a path leads to. -/
def toolAt (m : MemoryMachine) (here : List FileName) (path : String) :
    Except FileError Installed := do
  let (place, _) ← m.root.find here path
  match m.tools.find? (·.place == place) with
  | some tool => .ok tool
  | none => .error .denied

/-- Looks a tool up in the entries of a search path; `failure` is what has come of the
entries before them.  A directory without the tool is passed over, and so is a file in the
place of a directory; what stands under the name of the tool and is none is passed over
too, but remembered.  Any other failure ends the search.

An empty entry is the present directory.  So is one that is longer than a path can be, but
at the end of the search path it is nothing. -/
def lookUp (m : MemoryMachine) (here : List FileName) (name : String) (failure : FileError) :
    List String → Except FileError Installed
  | [] => .error failure
  | entry :: rest =>
    let isTooLong := Directory.longestPath < entry.utf8ByteSize
    if isTooLong && rest.isEmpty then .error failure
    else
      let path := if isTooLong || entry.isEmpty then name else entry ++ "/" ++ name
      match m.toolAt here path with
      | .ok tool => .ok tool
      | .error .denied => m.lookUp here name .denied rest
      | .error e =>
        if e = .missing ∨ e = .notDirectory then
          m.lookUp here name (if failure = .denied then failure else e) rest
        else .error e

/-- The tool that is run for a program. -/
def toolFor (m : MemoryMachine) (here : List FileName) (program : String) :
    Except FileError Installed :=
  if program.isEmpty then .error .missing
  else if program.toList.contains '/' then m.toolAt here program
  else m.lookUp here program .missing m.searchPath

/-- How a tool ends when it is called with some arguments. -/
def ruleFor (tool : Installed) (arguments : List String) : Rule :=
  (tool.rules.find? fun rule => occursIn rule.needle (joinStrings ' ' arguments)).getD {}

/-- How a tool with a rule ends under a time limit. -/
def endingOf (rule : Rule) (timeout : Option Nat) : ToolEnding :=
  if timeout.any (· ≤ rule.delay) then .timedOut
  else .exited (if rule.signalled then none else some (rule.code % 256)) rule.out rule.err

/-- The greatest length of an argument, in bytes. -/
def longestArgument : Nat := 131071

/-- The place that a command is run in. -/
def placeFor (m : MemoryMachine) (command : ToolCommand) : Except FileError (List FileName) := do
  match command.directory with
  | none => return FileName.ofTexts m.here
  | some path =>
    match ← m.root.find (FileName.ofTexts m.here) path with
    | (place, .folder _) => return place
    | (_, .file _) => .error .notDirectory

/-- The place that a tool is run in, and the tool.  No text can be handed over that has a
NUL in it; this is noticed before anything else. -/
def prepare (m : MemoryMachine) (command : ToolCommand) :
    Except FileError (List FileName × Installed) :=
  if command.texts.any (·.toList.contains '\x00') then .error .nulInText
  else do
    let place ← m.placeFor command
    let tool ← m.toolFor place command.program
    if command.arguments.any (longestArgument < ·.utf8ByteSize) then .error .argumentsTooLong
    else return (place, tool)

/-- Runs a tool. -/
def spawn (m : MemoryMachine) (command : ToolCommand) : ToolEnding × MemoryMachine :=
  match m.prepare command with
  | .error e => (.notStarted e, m)
  | .ok (place, tool) =>
    let call : ToolCall :=
      { tool := tool.name, arguments := command.arguments,
        directory := Directory.pathOf (place.map FileName.text) }
    (endingOf (ruleFor tool command.arguments) command.timeout,
      { m with calls := m.calls ++ [call] })

/-- What kind of thing a path leads to. -/
def kind (m : MemoryMachine) (path : String) : Option FileKind :=
  match m.root.find (FileName.ofTexts m.here) path with
  | .ok (_, .file _) => some .file
  | .ok (_, .folder _) => some .folder
  | .error _ => none

/-- The content of the file that a path leads to. -/
def contentOf (m : MemoryMachine) (path : String) : Except FileError (List UInt8) := do
  match (← m.root.find (FileName.ofTexts m.here) path).2 with
  | .file content => .ok content
  | .folder _ => .error .isDirectory

/-- What lies in the directory that a path leads to. -/
def directoryAt (m : MemoryMachine) (path : String) : Except FileError Directory := do
  match (← m.root.find (FileName.ofTexts m.here) path).2 with
  | .folder inside => .ok inside
  | .file _ => .error .notDirectory

/-- What lies in the directory that a path leads to, if all directories that are entered
on the way down can be read. -/
def survey (m : MemoryMachine) (path : String) (isEntered : FileName → Bool) :
    Except Unreadable Directory :=
  match m.directoryAt path with
  | .error e => .error ⟨path, e⟩
  | .ok inside =>
    match inside.firstTooLong? isEntered (Utf8.encode path) with
    | some below => .error ⟨String.ofList (Utf8.decodeLossy below), .nameTooLong⟩
    | none => .ok inside

/-- The machine with a changed tree, if the change could be made. -/
def changed (m : MemoryMachine) :
    Except FileError Directory → Except FileError Unit × MemoryMachine
  | .ok root => (.ok (), { m with root := root })
  | .error e => (.error e, m)

/-- Answers what is asked of the machine. -/
def answer : (q : Host.Request) → StateM MemoryMachine q.Answer
  | .kind path => fun m => (m.kind path, m)
  | .canonical path => fun m => ((m.root.canonical (FileName.ofTexts m.here) path).toOption, m)
  | .currentDirectory => fun m => (Directory.pathOf m.here, m)
  | .read path => fun m => (m.contentOf path, m)
  | .survey path isEntered => fun m => (m.survey path isEntered, m)
  | .makeFolder path => fun m => m.changed (m.root.makeFolder (FileName.ofTexts m.here) path)
  | .makeFile path => fun m => m.changed (m.root.makeFile (FileName.ofTexts m.here) path)
  | .spawn command => fun m => m.spawn command
  | .now => fun m => (m.clock, m)
  | .isTerminal => fun m => (false, m)
  | .print text => fun m => ((), { m with out := m.out ++ text })
  | .warn text => fun m => ((), { m with err := m.err ++ text })

/-- Runs a program on the machine. -/
def run {α : Type} (m : MemoryMachine) (p : Host.Action α) : α × MemoryMachine :=
  (p.answerWith (m := StateM MemoryMachine) answer).run m

end MemoryMachine
end ProtoBuild
