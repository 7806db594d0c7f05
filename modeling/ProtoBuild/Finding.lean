/-!
# Findings of the checks

A check of the definitions in a lake reports findings.  A `CheckReport` holds them
together with the verdict: a report made from findings is a success exactly when
none of them is an error (`CheckReport.ofFindings_success`).
-/

namespace ProtoBuild

/-- What was checked. -/
inductive Check where
  | compilation
  | lint
  | breaking
  | format
  deriving DecidableEq, Repr

/-- All checks. -/
def Check.all : List Check := [compilation, lint, breaking, format]

/-- How a check is written. -/
def Check.text : Check → String
  | compilation => "compilation"
  | lint => "lint"
  | breaking => "breaking"
  | format => "format"

/-- How much a finding weighs. -/
inductive Severity where
  | warning
  | error
  deriving DecidableEq, Repr

/-- All severities. -/
def Severity.all : List Severity := [warning, error]

/-- One problem that a check has found. -/
structure Finding where
  check : Check
  severity : Severity
  message : String
  file : Option String := none
  line : Option UInt32 := none
  column : Option UInt32 := none
  deriving DecidableEq, Repr

namespace Finding

/-- Whether the finding makes its check fail. -/
def isError (f : Finding) : Bool :=
  f.severity == .error

/-- A finding in one line.  A position is written only with its file. -/
def text (f : Finding) : String :=
  let head := "[" ++ f.check.text ++ "] "
  match f.file, f.line, f.column with
  | some file, some line, some column =>
    head ++ file ++ ":" ++ toString line.toNat ++ ":" ++ toString column.toNat ++ ": " ++ f.message
  | some file, _, _ => head ++ file ++ ": " ++ f.message
  | none, _, _ => head ++ f.message

end Finding

/-- What the checks of a lake have come to. -/
structure CheckReport where
  success : Bool
  findings : List Finding
  /-- Why the checks were not run, if they were not. -/
  skipped : Option String := none
  deriving DecidableEq, Repr

namespace CheckReport

/-- The report of checks that were run. -/
def ofFindings (findings : List Finding) : CheckReport :=
  { success := ! findings.any Finding.isError, findings := findings }

/-- The report of checks that were not run, which is a success. -/
def ofSkip (reason : String) : CheckReport :=
  { success := true, findings := [], skipped := some reason }

/-- The findings that are errors. -/
def errors (r : CheckReport) : List Finding :=
  r.findings.filter Finding.isError

/-- The findings that are no errors. -/
def warnings (r : CheckReport) : List Finding :=
  r.findings.filter (! ·.isError)

theorem ofFindings_success (findings : List Finding) :
    (ofFindings findings).success = true ↔ ∀ f ∈ findings, f.isError = false := by
  simp [ofFindings]

end CheckReport
end ProtoBuild
