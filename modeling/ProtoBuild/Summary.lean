import ProtoBuild.Operation
import ProtoBuild.Text.Digit

/-!
# What a build has come to

The summary and the verdict of a build are read off its progress alone.
-/

namespace ProtoBuild

namespace Progress

/-- The statuses of the units, in the order of their directories. -/
def statuses (p : Progress) : List UnitStatus :=
  p.units.values.map UnitRecord.status

/-- The error of the first failed unit that has one. -/
def firstUnitError? (p : Progress) : Option String :=
  p.units.values.findSome? fun u => if u.status = .failed then u.error else none

/-- The counts, packages and first error of a build.  The error of a unit comes
before that of a phase. -/
def summary (p : Progress) : Summary where
  total := Text.clampWord p.statuses.length
  successful := Text.clampWord (p.statuses.countP UnitStatus.isSuccess)
  failed := Text.clampWord (p.statuses.count .failed)
  skipped := Text.clampWord (p.statuses.count .skipped)
  artifacts := p.units.values.flatMap fun u => u.artifacts.values.map Artifact.text
  firstError := p.firstUnitError?.orElse fun _ => p.phases.firstError?

/-- How a build went as a whole, by its units if no phase but the build phase has
failed. -/
def verdict (p : Progress) : Verdict :=
  if p.stage = .cancelled then .cancelled
  else if [Phase.codegen, .validation, .publish].any fun q => (p.phases.get q).state = .failed then
    .failed
  else if p.statuses.count .failed = 0 then .succeeded
  else if p.statuses.countP UnitStatus.isSuccess = 0 then .failed
  else .partialSuccess

/-- What a build leaves that ends with this progress. -/
def result (p : Progress) (now : UInt64) : BuildResult where
  progress := p
  verdict := p.verdict
  completionTime := now
  summary := p.summary

end Progress
end ProtoBuild
