import ProtoBuild.Options

/-!
# What the command can be asked to do

A command line is read as an `Invocation`: a request for help or for the version, a
request to do something, or a fault.
-/

namespace ProtoBuild

/-- How results are printed. -/
inductive OutputFormat where
  | text
  | json
  deriving DecidableEq, Repr

/-- The format of a name. -/
def OutputFormat.ofName? : String → Option OutputFormat
  | "text" => some text
  | "json" => some json
  | _ => none

/-- Something to do. -/
inductive Command where
  /-- Build a target, or the whole lake. -/
  | build (target : Option String) (lakePath : String) (options : BuildOptions)
  /-- Print the branch. -/
  | branch (lakePath : String)
  deriving DecidableEq, Repr

/-- What a command line stands for. -/
inductive Invocation where
  /-- The command line cannot be understood. -/
  | fault
  | help
  | version
  | run (format : OutputFormat) (command : Command)
  deriving DecidableEq, Repr

end ProtoBuild
