import ProtoBuild.Proofs.Pipeline.Stages

/-!
# What a build leaves behind

Whoever polls a build reads its stage and trusts it: a build that is shown as completed has
a result, one that is shown as cancelled was asked to stop, and one that is shown as failed has
an error.  `proper_and_coherent` says that this trust is justified after every run, and that
nothing else that is shown contradicts it: no phase runs on, none is left out before one that
has started, and no unit is still with the build tool.

## Runs under way

The order of the calls is a statement about builds that have not returned as well.  It
follows from the one about builds that have: a run under way can always be completed, and
what is said of the order of all its calls holds of the first of them.
-/

namespace ProtoBuild

namespace PipelineError

theorem stage_ne_completed (e : PipelineError) : e.stage ≠ .completed := by
  unfold stage
  split <;> exact Stage.noConfusion

theorem stage_eq_cancelled_iff {e : PipelineError} : e.stage = .cancelled ↔ e = .cancelled := by
  cases e <;> simp [stage, isCancelled]

theorem stage_eq_failed_iff {e : PipelineError} : e.stage = .failed ↔ e ≠ .cancelled := by
  cases e <;> simp [stage, isCancelled]

end PipelineError

namespace Pipeline

open Program

variable {goOn : Bool} {outside : Prop} {run : Run} {p : Progress}

/-- What a build that has returned leaves: no phase is running, the phases that have started
are the first ones and each of them is over, no unit is being built, and the stage that the
listener was shown last is the one that belongs to the answer. -/
structure Coherent (answer : Except PipelineError BuildResult) (run : Run) (p : Progress) :
    Prop where
  through : ∃ k, p.Through k
  not_running : ∀ phase, (p.phases.get phase).state ≠ .running
  idle : p.Idle
  shown : lastShown? run = some p
  completed_iff : p.stage = .completed ↔ ∃ result, answer = .ok result
  cancelled_iff : p.stage = .cancelled ↔ answer = .error .cancelled
  failed_iff : p.stage = .failed ↔ ∃ e, answer = .error e ∧ e ≠ .cancelled

/-- The stage that belongs to the answer of a build. -/
def lastStage : Except PipelineError BuildResult → Stage
  | .ok _ => .completed
  | .error e => e.stage

theorem Ended.coherent {answer : Except PipelineError BuildResult}
    (h : Ended goOn outside (lastStage answer) run p) : Coherent answer run p := by
  obtain ⟨k, hthrough⟩ := h.through
  have hstage : p.stage = lastStage answer := h.stage_eq
  refine
    { through := ⟨k, hthrough⟩
      not_running := hthrough.not_running
      idle := h.idle
      shown := h.shown
      completed_iff := ?_
      cancelled_iff := ?_
      failed_iff := ?_ }
  · rw [hstage]
    cases answer with
    | ok result => exact iff_of_true rfl ⟨result, rfl⟩
    | error e => exact iff_of_false e.stage_ne_completed (by simp)
  · rw [hstage]
    cases answer with
    | ok result => exact iff_of_false Stage.noConfusion (by simp)
    | error e => simpa [lastStage] using PipelineError.stage_eq_cancelled_iff
  · rw [hstage]
    cases answer with
    | ok result => exact iff_of_false Stage.noConfusion (by simp)
    | error e => simpa [lastStage] using PipelineError.stage_eq_failed_iff

/-- However a build ends that has begun before its first phase, it ends coherently. -/
theorem ended_of_reaches {lake : Workspace} {target : String} {options : BuildOptions}
    {answer : Except PipelineError BuildResult} {q : Progress}
    (hout : outside → lake.relative? target = none) (hp : p.Between Phase.codegen.index)
    (h : Reaches (Pipeline.run lake target options p) run (.done (answer, q))) :
    Ended (options.onLake lake).continueOnFailure outside (lastStage answer) run q := by
  have hall := ensures_iff.mp (ensures_wholeBuild lake target options hout hp) run (answer, q) h
  rw [List.nil_append] at hall
  cases answer with
  | ok result => exact hall
  | error e => exact hall

/-- As far as a build has come, its calls are proper. -/
theorem proper_of_reaches {lake : Workspace} {target : String} {options : BuildOptions}
    {rest : Program interface (Except PipelineError BuildResult × Progress)}
    (hp : p.Between Phase.codegen.index)
    (h : Reaches (Pipeline.run lake target options p) run rest) :
    Proper (options.onLake lake).continueOnFailure (lake.relative? target = none) (calls run) := by
  -- a run under way goes on to a complete one, and its calls are the first of that
  obtain ⟨more, ⟨answer, q⟩, hall, -⟩ := h.exists_complete success
  have hproper := (ended_of_reaches id hp hall).proper
  rw [calls_append] at hproper
  exact hproper.of_append

/-- **Stage by stage to a coherent end.**  Whatever the collaborators answer, whatever the
clock shows and whenever the build is asked to stop: as far as the build has come, each call
was made at its place and none after a stage that has failed, and for a target outside the
lake nothing was done inside it.  Once the build has returned, the phases that have started are
the first ones and are over, no unit is being built, and the progress that the listener was
shown last stands in the stage that belongs to the answer. -/
theorem proper_and_coherent (lake : Workspace) (target : String) (options : BuildOptions)
    (recorded : Workspace) (requested branch : String) (time : UInt64)
    {rest : Program interface (Except PipelineError BuildResult × Progress)}
    (h : Reaches
      (Pipeline.run lake target options (.initial recorded requested branch time)) run rest) :
    Proper (options.onLake lake).continueOnFailure (lake.relative? target = none) (calls run) ∧
      ∀ answer p, rest = .done (answer, p) → Coherent answer run p := by
  have hinitial := Progress.between_initial recorded requested branch time
  refine ⟨proper_of_reaches hinitial h, ?_⟩
  rintro answer p rfl
  have hended : Ended (options.onLake lake).continueOnFailure (lake.relative? target = none)
      (lastStage answer) run p := ended_of_reaches id hinitial h
  exact hended.coherent

/-- A build whose collaborators all succeed has made its calls in order and is shown as
completed. -/
theorem coherent_of_success :
    ∃ run result p, Reaches
        (Pipeline.run { root := "/lake" } "." {} (.initial { root := "/lake" } "." "main" 0)) run
        (.done (.ok result, p)) ∧
      (calls run).map (fun x => x.1.rank) = [0, 1, 2, 5] ∧ InOrder false (calls run) ∧
      lastShown? run = some p ∧ p.stage = .completed := by
  have hrun := reaches_replay success
    (Pipeline.run { root := "/lake" } "." {} (.initial { root := "/lake" } "." "main" 0))
  obtain ⟨hproper, hcoherent⟩ := proper_and_coherent _ _ _ _ _ _ _ hrun
  have hend := hcoherent _ _ rfl
  obtain ⟨result, hresult⟩ := hend.completed_iff.mp rfl
  refine ⟨_, result, _, ?_, rfl, hproper.inOrder, hend.shown, rfl⟩
  rw [← hresult]
  exact hrun

end Pipeline
end ProtoBuild
