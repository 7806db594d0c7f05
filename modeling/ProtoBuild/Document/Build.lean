import ProtoBuild.Document.Workspace
import ProtoBuild.Operation

/-!
# Builds as documents

The documents of phases, units, progress, findings and operations.  Times are numbers
of sixty-four bits and positions numbers of thirty-two; members of enumerations are
written in capitals, but checks in small letters.
-/

namespace ProtoBuild

open Document

/-! ## Enumerations -/

/-- How a state of a phase is written in a document. -/
def PhaseState.documentName : PhaseState → String
  | notStarted => "NOT_STARTED"
  | running => "RUNNING"
  | succeeded => "SUCCEEDED"
  | failed => "FAILED"
  | skipped => "SKIPPED"

/-- How a status of a unit is written in a document. -/
def UnitStatus.documentName : UnitStatus → String
  | pending => "PENDING"
  | building => "BUILDING"
  | built => "BUILT"
  | published => "PUBLISHED"
  | failed => "FAILED"
  | skipped => "SKIPPED"

/-- How a severity is written in a document. -/
def Severity.documentName : Severity → String
  | warning => "WARNING"
  | error => "ERROR"

instance : Document Stage := enumeration Stage.all Stage.text

instance : Document PhaseState := enumeration PhaseState.all PhaseState.documentName

instance : Document UnitStatus := enumeration UnitStatus.all UnitStatus.documentName

instance : Document Check := enumeration Check.all Check.text

instance : Document Severity := enumeration Severity.all Severity.documentName

instance : Document FaultCode := enumeration FaultCode.all FaultCode.text

instance : Document Verdict := enumeration Verdict.all Verdict.text

/-! ## Names -/

instance : Document OperationName where
  encode n := .string n.text
  decode? v := (decode? v).map OperationName.mk

instance : Document ResourceName where
  encode n := .string n.text
  decode? v := (decode? v).map ResourceName.mk

/-! ## Phases -/

instance : Document PhaseRecord where
  encode r := Value.objectOf
    [written "status" r.state,
      if r.subPhase.isEmpty then none else written "sub_phase" r.subPhase,
      writtenIf "start_time_ms" r.startTime, writtenIf "end_time_ms" r.endTime,
      writtenIf "error_message" r.error, written "log_lines" r.log]
  decode? v := do
    let fields ← v.fields?
      ["status", "sub_phase", "start_time_ms", "end_time_ms", "error_message", "log_lines"]
    return {
      state := ← fields.required "status"
      subPhase := ← fields.orDefault "sub_phase" ""
      startTime := ← fields.optional "start_time_ms"
      endTime := ← fields.optional "end_time_ms"
      error := ← fields.optional "error_message"
      log := ← fields.orDefault "log_lines" [] }

instance : Document PhaseRecords where
  encode r := Value.objectOf
    [written "codegen" r.codegen, written "validation" r.validation, written "build" r.build,
      written "publish" r.publish]
  decode? v := do
    let fields ← v.fields? ["codegen", "validation", "build", "publish"]
    return {
      codegen := ← fields.required "codegen"
      validation := ← fields.required "validation"
      build := ← fields.required "build"
      publish := ← fields.required "publish" }

/-! ## Units -/

/-- How the kind of an artifact is written. -/
def Artifact.kind : Artifact → String
  | maven .. => "maven"
  | python .. => "python"
  | npm .. => "npm"

/-- The artifact of a kind with the fields in a value. -/
def Artifact.ofKind? (kind : String) (v : Value) : Option Artifact :=
  if kind = "maven" then do
    let fields ← v.fields? ["group_id", "artifact_id", "version"]
    return .maven (← fields.required "group_id") (← fields.required "artifact_id")
      (← fields.required "version")
  else if kind = "python" then do
    let fields ← v.fields? ["package_name", "version"]
    return .python (← fields.required "package_name") (← fields.required "version")
  else if kind = "npm" then do
    let fields ← v.fields? ["package_name", "version"]
    return .npm (← fields.required "package_name") (← fields.required "version")
  else none

/-- The kind of an artifact decides which fields it has, so all of its document is
held before the fields are read; a part that cannot be held is an error even in a
field that is not known. -/
instance : Document Artifact where
  encode a :=
    let fields := match a with
      | .maven group name version =>
        [written "group_id" group, written "artifact_id" name, written "version" version]
      | .python package version => [written "package_name" package, written "version" version]
      | .npm package version => [written "package_name" package, written "version" version]
    Value.objectOf (written "kind" a.kind :: fields)
  decode? v :=
    if ! v.isWellFormed then none
    else
      match v with
      | .object fields =>
        match fields.filter fun f => f.1 == "kind" with
        | [(_, .string kind)] =>
          Artifact.ofKind? kind (.object (fields.filter fun f => f.1 != "kind"))
        | _ => none
      | .list (.string kind :: rest) => Artifact.ofKind? kind (.list rest)
      | _ => none

instance : Document UnitRecord where
  encode u := Value.objectOf
    [written "target" u.target, written "version" u.version, written "status" u.status,
      writtenIf "start_time_ms" u.startTime, writtenIf "end_time_ms" u.endTime,
      written "artifacts" u.artifacts, writtenIf "error_message" u.error,
      written "build_logs" u.logs]
  decode? v := do
    let fields ← v.fields?
      ["target", "version", "status", "start_time_ms", "end_time_ms", "artifacts",
        "error_message", "build_logs"]
    return {
      target := ← fields.required "target"
      version := ← fields.required "version"
      status := ← fields.required "status"
      startTime := ← fields.optional "start_time_ms"
      endTime := ← fields.optional "end_time_ms"
      artifacts := ← fields.orDefault "artifacts" ∅
      error := ← fields.optional "error_message"
      logs := ← fields.orDefault "build_logs" [] }

instance : Document Progress where
  encode p := Value.objectOf
    [written "requested_target" p.target, written "branch" p.branch,
      written "start_time_ms" p.startTime, written "current_phase" p.stage,
      written "phase_statuses" p.phases, written "target_builds" p.units,
      writtenIf "repo" p.lake]
  decode? v := do
    let fields ← v.fields?
      ["requested_target", "branch", "start_time_ms", "current_phase", "phase_statuses",
        "target_builds", "repo"]
    return {
      target := ← fields.required "requested_target"
      branch := ← fields.required "branch"
      startTime := ← fields.required "start_time_ms"
      stage := ← fields.required "current_phase"
      phases := ← fields.required "phase_statuses"
      units := ← fields.orDefault "target_builds" ∅
      lake := ← fields.optional "repo" }

/-! ## Findings -/

instance : Document Finding where
  encode f := Value.objectOf
    [written "kind" f.check, written "severity" f.severity, written "message" f.message,
      writtenIf "file" f.file, writtenIf "line" f.line, writtenIf "column" f.column]
  decode? v := do
    let fields ← v.fields? ["kind", "severity", "message", "file", "line", "column"]
    return {
      check := ← fields.required "kind"
      severity := ← fields.required "severity"
      message := ← fields.required "message"
      file := ← fields.optional "file"
      line := ← fields.optional "line"
      column := ← fields.optional "column" }

instance : Document CheckReport where
  encode r := Value.objectOf
    [written "success" r.success, written "findings" r.findings, writtenIf "skipped" r.skipped]
  decode? v := do
    let fields ← v.fields? ["success", "findings", "skipped"]
    return {
      success := ← fields.required "success"
      findings := ← fields.required "findings"
      skipped := ← fields.optional "skipped" }

/-! ## Operations -/

instance : Document Fault where
  encode f := Value.objectOf [written "code" f.code, written "message" f.message]
  decode? v := do
    let fields ← v.fields? ["code", "message"]
    return { code := ← fields.required "code", message := ← fields.required "message" }

instance : Document Summary where
  encode s := Value.objectOf
    [written "total_targets" s.total, written "successful_targets" s.successful,
      written "failed_targets" s.failed, written "skipped_targets" s.skipped,
      written "published_artifacts" s.artifacts, writtenIf "first_error" s.firstError]
  decode? v := do
    let fields ← v.fields?
      ["total_targets", "successful_targets", "failed_targets", "skipped_targets",
        "published_artifacts", "first_error"]
    return {
      total := ← fields.required "total_targets"
      successful := ← fields.required "successful_targets"
      failed := ← fields.required "failed_targets"
      skipped := ← fields.required "skipped_targets"
      artifacts := ← fields.required "published_artifacts"
      firstError := ← fields.optional "first_error" }

instance : Document BuildResult where
  encode r := Value.objectOf
    [written "metadata" r.progress, written "status" r.verdict,
      written "completion_time_ms" r.completionTime, written "summary" r.summary]
  decode? v := do
    let fields ← v.fields? ["metadata", "status", "completion_time_ms", "summary"]
    return {
      progress := ← fields.required "metadata"
      verdict := ← fields.required "status"
      completionTime := ← fields.required "completion_time_ms"
      summary := ← fields.required "summary" }

instance : Document Operation where
  encode o := Value.objectOf
    [written "name" o.name, written "resource_name" o.resource, written "metadata" o.progress,
      written "done" o.done, writtenIf "result" o.result, writtenIf "error" o.fault]
  decode? v := do
    let fields ← v.fields? ["name", "resource_name", "metadata", "done", "result", "error"]
    return {
      name := ← fields.required "name"
      resource := ← fields.required "resource_name"
      progress := ← fields.required "metadata"
      done := ← fields.required "done"
      result := ← fields.optional "result"
      fault := ← fields.optional "error" }

end ProtoBuild
