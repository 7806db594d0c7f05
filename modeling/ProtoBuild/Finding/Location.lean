import ProtoBuild.Finding
import ProtoBuild.Text.Digit
import ProtoBuild.Text.Split

/-!
# Findings read from the lines of a tool

A check prints one finding a line.  A line of the form `file:line:column:message`
says where the problem is; of the ways to read it so, the one with the shortest file
is taken.  Any other line is a message as a whole.
-/

namespace ProtoBuild

/-- Where a problem is, and what it is, as a line of tool output says it. -/
structure Location where
  file : List Char
  line : List Char
  column : List Char
  message : List Char
  deriving DecidableEq, Repr

namespace Location

/-- A run of digits that a colon ends, and what follows the colon. -/
def digitsColon? (cs : List Char) : Option (List Char × List Char) :=
  match cs.takeWhile Text.isDecimalDigit, cs.dropWhile Text.isDecimalDigit with
  | [], _ => none
  | digits, ':' :: rest => some (digits, rest)
  | _, _ => none

/-- Two runs of digits, each ended by a colon, and a message that is not empty. -/
def tail? (cs : List Char) : Option (List Char × List Char × List Char) := do
  let (line, rest) ← digitsColon? cs
  let (column, message) ← digitsColon? rest
  if message.isEmpty then none else some (line, column, message)

/-- Reads a location whose file is as short as possible, perhaps empty. -/
def read? : List Char → Option Location
  | [] => none
  | c :: cs =>
    match if c == ':' then tail? cs else none with
    | some (line, column, message) => some ⟨[], line, column, message⟩
    | none => (read? cs).map fun l => { l with file := c :: l.file }

/-- The location a line says.  Its file is as short as possible, but not empty. -/
def ofLine? : List Char → Option Location
  | [] => none
  | c :: cs => (read? cs).map fun l => { l with file := c :: l.file }

end Location

namespace Finding

/-- The finding a line of tool output stands for.  A position that is no number of
thirty-two bits counts as zero. -/
def ofLine (check : Check) (severity : Severity) (line : List Char) : Finding :=
  match Location.ofLine? line with
  | some l =>
    { check := check
      severity := severity
      message := String.ofList (Text.trim l.message)
      file := some (String.ofList l.file)
      line := some ((Text.word32? l.line).getD 0)
      column := some ((Text.word32? l.column).getD 0) }
  | none => { check := check, severity := severity, message := String.ofList line }

/-- The findings in the output of a tool, one for each line that is not blank. -/
def ofOutput (check : Check) (severity : Severity) (output : String) : List Finding :=
  (Text.fullLines output.toList).map (ofLine check severity)

end Finding
end ProtoBuild
