import ProtoBuild.Text.Split
import ProtoBuild.Text.Utf8

/-!
# Tools that are run from outside

A tool ends with an exit code and one text, its standard output followed by its
standard error (`ToolOutput.capture`).  A `ToolError` says why a tool was of no use.
-/

namespace ProtoBuild

/-- What a tool has left. -/
structure ToolOutput where
  /-- The exit code, or `-1` if a signal ended the tool. -/
  exitCode : Int
  text : String
  deriving DecidableEq, Repr

/-- Why a tool was of no use. -/
inductive ToolError where
  | notStarted (description reason : String)
  | timedOut (description : String) (seconds : Nat)
  | failed (description : String) (exitCode : Int) (output : String)
  deriving DecidableEq, Repr

namespace ToolError

/-- The error in one line. -/
def message : ToolError → String
  | notStarted description reason => description ++ " failed to start: " ++ reason
  | timedOut description seconds =>
    description ++ " timed out after " ++ toString seconds ++ "s"
  | failed description exitCode _ => description ++ " exited with code " ++ toString exitCode

/-- What the tool printed, if it got so far. -/
def output? : ToolError → Option String
  | failed _ _ output => some output
  | _ => none

end ToolError

namespace ToolOutput

/-- Two texts one after the other, the second on a line of its own. -/
def merge (out err : List Char) : List Char :=
  if err.isEmpty then out
  else if out.isEmpty || out.getLast? == some '\n' then out ++ err
  else out ++ '\n' :: err

/-- The output of a tool that ended with a code, or by a signal. -/
def capture (exitCode : Option Int) (out err : List UInt8) : ToolOutput where
  exitCode := exitCode.getD (-1)
  text := String.ofList (merge (Utf8.decodeLossy out) (Utf8.decodeLossy err))

/-- Whether the tool says that all went well. -/
def success (o : ToolOutput) : Bool :=
  o.exitCode == 0

/-- Takes any other exit code than zero for an error. -/
def check (o : ToolOutput) (description : String) : Except ToolError ToolOutput :=
  if o.success then .ok o else .error (.failed description o.exitCode o.text)

/-- The lines of the output, trimmed; blank ones are left out. -/
def lines (o : ToolOutput) : List String :=
  (Text.fullLines o.text.toList).map String.ofList

/-- The last `n` of the lines. -/
def tail (o : ToolOutput) (n : Nat) : String :=
  joinStrings '\n' (o.lines.drop (o.lines.length - n))

end ToolOutput
end ProtoBuild
