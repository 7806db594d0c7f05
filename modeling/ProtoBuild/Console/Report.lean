import ProtoBuild.Console.Paint
import ProtoBuild.Duration
import ProtoBuild.Text.Split

/-!
# What is printed of a finished build

A report has a headline, a line for each unit, the counts, the published packages and
the first error.  How durations are written is a parameter, which is `Duration.format`
wherever a report is printed.
-/

namespace ProtoBuild
namespace Report

/-- A text with blanks after it up to a width. -/
def padRight (width : Nat) (text : String) : String :=
  text ++ String.ofList (List.replicate (width - text.length) ' ')

/-- The first line of a text, or the text itself if it has no lines. -/
def headOf (text : String) : String :=
  (firstLine? text).getD text

/-- The lines of a unit: its status, and why it failed. -/
def unitLines (painter : Painter) (duration : UInt64 → String) (u : UnitRecord) : List String :=
  let time := match Duration.between u.startTime u.endTime with
    | some ms => " (" ++ duration ms ++ ")"
    | none => ""
  let line := "  " ++ padRight 10 u.status.text ++ " " ++ u.target ++ " " ++
    painter.muted u.version ++ time
  let reason := if u.status = .failed then u.error.bind firstLine? else none
  line :: (reason.map fun r => "             " ++ r).toList

/-- The headline. -/
def headline (painter : Painter) (duration : UInt64 → String) (r : BuildResult) : String :=
  "Build " ++ painter.verdict r.verdict ++ " for " ++ r.progress.target ++ " on " ++
    r.progress.branch ++ " in " ++
    duration (Text.monus r.completionTime r.progress.startTime)

/-- The line with the counts. -/
def counts (s : Summary) : String :=
  "Targets: " ++ toString s.total.toNat ++ " total, " ++ toString s.successful.toNat ++
    " succeeded, " ++ toString s.failed.toNat ++ " failed, " ++ toString s.skipped.toNat ++
    " skipped"

/-- The lines with the packages. -/
def artifactLines (s : Summary) : List String :=
  if s.artifacts.isEmpty then [] else "Artifacts:" :: s.artifacts.map ("  " ++ ·)

/-- The lines of a report. -/
def lines (painter : Painter) (duration : UInt64 → String) (r : BuildResult) : List String :=
  headline painter duration r ::
    r.progress.units.values.flatMap (unitLines painter duration) ++
    counts r.summary :: artifactLines r.summary ++
    (r.summary.firstError.map fun e => "First error: " ++ headOf e).toList

end Report
end ProtoBuild
