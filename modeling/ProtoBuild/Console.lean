import ProtoBuild.Console.Paint
import ProtoBuild.Pipeline.Request

/-!
# What is printed while a build runs

The console prints a heading when a phase starts, each line of a log when it first sees
it, and a line when a phase has failed.  It remembers how many lines of each log it has
printed, since every update shows the logs from their beginning.
-/

namespace ProtoBuild

/-- The console: its colours, and how many lines of each log it has printed. -/
structure Console where
  painter : Painter
  printed : Phase → Nat := fun _ => 0

namespace Console

/-- The heading of a phase. -/
def title : Phase → String
  | .codegen => "Generating BUILD files"
  | .validation => "Validating protos"
  | .build => "Building"
  | .publish => "Publishing"

/-- A text moved to the right, as the lines of a phase are. -/
def indent (text : String) : String :=
  "    " ++ text

/-- The lines of a log that have not been printed. -/
def newLines (c : Console) (p : Progress) (phase : Phase) : List String :=
  (p.phases.get phase).log.drop (c.printed phase)

/-- The console after it has printed the new lines of all logs. -/
def seen (c : Console) (p : Progress) : Console :=
  { c with printed := fun phase => max (c.printed phase) (p.phases.get phase).log.length }

/-- What is printed when something happens, line by line, and the console then. -/
def react (c : Console) : Event → List String × Console
  | .phaseStarted phase => ([c.painter.header "==>" ++ " " ++ title phase], c)
  | .phaseCompleted _ true _ => ([], c)
  | .phaseCompleted phase false message =>
    ([indent (phase.text ++ " failed: " ++ message.getD "unknown error")], c)
  | .updated p =>
    ((Phase.all.flatMap (c.newLines p)).map fun line => indent (c.painter.muted line), c.seen p)
  | .completed _ => ([], c)
  | .failed _ => ([], c)

/-- What is printed during some events. -/
def reactAll (c : Console) : List Event → List String
  | [] => []
  | e :: es =>
    let (lines, c) := c.react e
    lines ++ c.reactAll es

end Console

end ProtoBuild
