import ProtoBuild.Proofs.Pipeline.Parts

/-!
# A build tells of its completion last

Whoever is told that a build is completed takes it for over.  So a build that ends with a
result says so once, with that result, and asks for nothing more; and a build that ends
with an error never says so (`ensures_completed_last`).

All parts but the last few lines of `wholeBuild` are silent on the completion, whatever they
change and whomever they call; for these it is enough to look at what they are made of
(`keeps_plain`).
-/

namespace ProtoBuild
namespace Pipeline

open Work

variable {run more : Run}

/-- A run in which the completion is not told. -/
def Run.Plain (run : Run) : Prop := ∀ r, Event.completed r ∉ events run

theorem plain_append_iff : Run.Plain (run ++ more) ↔ run.Plain ∧ more.Plain := by
  simp only [Run.Plain, events_append, List.mem_append, not_or, forall_and]

/-- No part of a build whose requests show no progress tells of the completion. -/
theorem keeps_plain : Keeps AnyChange (Request.From 0) fun run _ => run.Plain where
  modify _ _ hrun := hrun
  request q answer hq hrun := by
    refine plain_append_iff.mpr ⟨hrun, fun r hr => ?_⟩
    cases q with
    | tell e =>
      obtain rfl := List.mem_singleton.mp hr
      exact absurd hq (by simp [Request.From, Event.shown?])
    | call c => exact absurd hr List.not_mem_nil
    | now => exact absurd hr List.not_mem_nil
    | isCancelled => exact absurd hr List.not_mem_nil
  push hrun := plain_append_iff.mpr ⟨hrun, fun r => by simp⟩

/-- Up to the last request of a build that has come through its phases its run is plain, and the
result shows the progress of the end. -/
theorem Run.Plain.finished (h : run.Plain) (p : Progress) (time : UInt64) :
    ∃ before : Run, before.Plain ∧
      run ++ [told (.updated p), timed time, told (.completed (p.result time))] =
        before ++ [told (.completed (p.result time))] ∧
      (p.result time).progress = p := by
  refine ⟨run ++ [told (.updated p), timed time], plain_append_iff.mpr ⟨h, fun r => ?_⟩, by simp,
    rfl⟩
  simp

/-- **The completion is told last.**  A build that ends with a result tells of it last of
all and not before, and the result shows the progress of the end; a build that ends with an
error does not tell of a completion. -/
theorem ensures_completed_last (lake : Workspace) (target : String) (options : BuildOptions)
    (p : Progress) :
    Ensures (wholeBuild lake target options)
      (fun result run p =>
        ∃ before : Run, before.Plain ∧ run = before ++ [told (.completed result)] ∧
          result.progress = p)
      (fun _ run _ => run.Plain) [] p := by
  have hnil : Run.Plain [] := fun r hr => absurd hr List.not_mem_nil
  -- up to the last lines, each part keeps the run plain, whether it ends with a value or not
  have keep : ∀ {α : Type} {work : Work α} {Q : α → Assertion},
      Made AnyChange (Request.From 0) work → (∀ a run p, run.Plain → Q a run p) →
        ∀ {run : Run} {p : Progress}, run.Plain →
          Ensures work Q (fun _ run _ => run.Plain) run p :=
    fun hmade hQ _ _ hrun => (hmade.ensures keeps_plain hrun).mono
      (fun a run p h => hQ a run p h) fun _ _ _ h => h
  unfold wholeBuild
  simp only [ensures_bind, ensures_modify]
  refine keep (made_checkpoint (by omega)).free (fun _ run p hrun => ?_) hnil
  refine keep (made_call (Nat.zero_le _)) (fun answer run p hrun => ?_) hrun
  cases answer with
  | error e =>
    rw [ensures_abort_none]
    intro r hr
    exact hrun r (by simpa using hr)
  | ok _ =>
    simp only [ensures_bind]
    refine keep (made_generate (by omega) lake).free (fun _ run p hrun => ?_) hrun
    refine keep (made_validate (by omega) lake options).free (fun _ run p hrun => ?_) hrun
    refine keep (made_buildTarget (by omega) lake target options).free
      (fun place run p hrun => ?_) hrun
    split
    · rw [ensures_bind]
      exact keep (made_publishTarget (by omega) lake place).free
        (fun _ run p hrun => ensures_finish.mpr (hrun.finished _)) hrun
    · exact ensures_finish.mpr (hrun.finished _)

end Pipeline
end ProtoBuild
