import ProtoBuild.Proofs.Pipeline.Coherence
import ProtoBuild.Proofs.Pipeline.Judgement
import ProtoBuild.Proofs.Text.Numerals

/-!
# What a result says of a build

The summary and the verdict of a build are read off its progress alone, and the verdict does not
look at the build phase.  So whether they say the right thing depends on the progress: in a
completed build each unit was built or has failed, and the build phase fails only together with
all of its units.  From this it follows what each verdict means (`BuildResult.Faithful`).

## Why the counts are read twice

The counts of a summary are words.  That they are the lengths of lists holds as far as a word
reaches, and what is to be said of the verdict does not depend on it; so the numbers of units are
those of the lists, and `exact` says when the words are these numbers.
-/

namespace ProtoBuild

theorem Verdict.eq_succeeded_of_exitCode {v : Verdict} (h : v.exitCode = 0) : v = .succeeded := by
  cases v <;> first | rfl | exact absurd h (by decide)

/-- A result says what has become of the units and phases of its build.  The numbers are those of
all units, of those that were built and of those that have failed. -/
structure BuildResult.Faithful (r : BuildResult) (total successful failed : Nat) : Prop where
  total_eq : r.progress.statuses.length = total
  successful_eq : r.progress.statuses.countP UnitStatus.isSuccess = successful
  failed_eq : r.progress.statuses.count .failed = failed
  counted : successful + failed = total
  summed : r.summary.total = Text.clampWord total ∧
    r.summary.successful = Text.clampWord successful ∧
    r.summary.failed = Text.clampWord failed ∧ r.summary.skipped = 0
  exact : total < UInt64.size → r.summary.total.toNat = total ∧
    r.summary.successful.toNat + r.summary.failed.toNat = total
  failed_iff : r.verdict = .failed ↔
    0 < total ∧ failed = total ∨ (r.progress.phases.get .publish).state = .failed
  partialSuccess_iff : r.verdict = .partialSuccess ↔
    (0 < failed ∧ failed < total) ∧ (r.progress.phases.get .publish).state ≠ .failed
  succeeded_iff : r.verdict = .succeeded ↔
    failed = 0 ∧ (r.progress.phases.get .publish).state ≠ .failed
  not_cancelled : r.verdict ≠ .cancelled
  of_build_failed : (r.progress.phases.get .build).state = .failed → r.verdict = .failed
  firstError_iff : r.summary.firstError = none ↔ r.verdict = .succeeded
  of_exitCode : r.verdict.exitCode = 0 →
    (∀ key u, r.progress.units.get? key = some u → u.status = .built ∨ u.status = .published) ∧
      ∀ q, (r.progress.phases.get q).state ≠ .failed

namespace Progress

variable {p : Progress}

/-! ## Counting judged units -/

theorem Built.mem_values (h : p.Built) {u : UnitRecord} (hu : u ∈ p.units.values) : u.Judged := by
  obtain ⟨key, hkey⟩ := StringMap.mem_values_iff.mp hu
  exact h.judged key u hkey

theorem Built.mem_statuses (h : p.Built) {s : UnitStatus} (hs : s ∈ p.statuses) :
    s.isSuccess = true ∨ s = .failed := by
  obtain ⟨u, hu, rfl⟩ := List.mem_map.mp hs
  exact (h.mem_values hu).imp_right And.left

/-- A unit that has failed is none that was built, and there are no others. -/
theorem Built.counted (h : p.Built) :
    p.statuses.countP UnitStatus.isSuccess + p.statuses.count .failed = p.statuses.length := by
  rw [List.length_eq_countP_add_countP UnitStatus.isSuccess, List.count_eq_countP]
  refine congrArg _ (List.countP_congr fun s hs => ?_)
  rcases h.mem_statuses hs with hsuccess | rfl
  · cases s <;> simp_all [UnitStatus.isSuccess]
  · simp [UnitStatus.isSuccess]

theorem Built.count_skipped (h : p.Built) : p.statuses.count .skipped = 0 := by
  refine List.count_eq_zero.mpr fun hs => ?_
  rcases h.mem_statuses hs with hsuccess | hfailed
  · exact absurd hsuccess Bool.false_ne_true
  · exact UnitStatus.noConfusion hfailed

/-! ## The first error -/

/-- A failed unit has an error, so there is one among the units exactly if one has failed. -/
theorem Built.firstUnitError?_eq_none_iff (h : p.Built) :
    p.firstUnitError? = none ↔ p.statuses.count .failed = 0 := by
  rw [firstUnitError?, List.findSome?_eq_none_iff, List.count_eq_zero]
  constructor
  · intro hnone hfailed
    obtain ⟨u, hu, hstatus⟩ := List.mem_map.mp hfailed
    rcases h.mem_values hu with hsuccess | ⟨-, herror⟩
    · rw [hstatus] at hsuccess
      exact absurd hsuccess Bool.false_ne_true
    · have hthis := hnone u hu
      rw [if_pos hstatus] at hthis
      rw [hthis] at herror
      exact absurd herror Bool.false_ne_true
  · intro hnone u hu
    refine if_neg fun hfailed => hnone (List.mem_map.mpr ⟨u, hu, hfailed⟩)

/-- If no unit has failed, the build phase has not failed either. -/
theorem Built.build_unfailed (h : p.Built) (hnone : p.statuses.count .failed = 0) :
    (p.phases.get .build).state ≠ .failed := by
  intro hfailed
  obtain ⟨hpos, hall⟩ := h.build_failed hfailed
  omega

theorem Completed.firstError?_eq_none_iff (h : p.Completed)
    (hnone : p.statuses.count .failed = 0) :
    p.phases.firstError? = none ↔ (p.phases.get .publish).state ≠ .failed := by
  have hcodegen : (p.phases.get .codegen).state ≠ .failed := h.early .codegen (by decide)
  have hvalidation : (p.phases.get .validation).state ≠ .failed := h.early .validation (by decide)
  have hbuild : (p.phases.get .build).state ≠ .failed := h.build_unfailed hnone
  simp only [PhaseRecords.firstError?, Phase.all, List.findSome?_cons, if_neg hcodegen,
    if_neg hvalidation, if_neg hbuild, List.findSome?_nil]
  by_cases hpublish : (p.phases.get .publish).state = .failed
  · obtain ⟨e, he⟩ := Option.isSome_iff_exists.mp (h.publish_failed hpublish)
    simp [hpublish, he]
  · simp [hpublish]

theorem Completed.firstError_iff (h : p.Completed) :
    p.summary.firstError = none ↔
      p.statuses.count .failed = 0 ∧ (p.phases.get .publish).state ≠ .failed := by
  have hunits := h.firstUnitError?_eq_none_iff
  show (p.firstUnitError?.orElse fun _ => p.phases.firstError?) = none ↔ _
  by_cases hnone : p.statuses.count .failed = 0
  · rw [hunits.mpr hnone, Option.orElse_none, h.firstError?_eq_none_iff hnone]
    exact (and_iff_right hnone).symm
  · obtain ⟨e, he⟩ := Option.ne_none_iff_exists'.mp (mt hunits.mp hnone)
    simp [he, hnone]

/-! ## The verdict -/

/-- How the verdict of a completed build is found. -/
theorem Completed.verdict_cases (h : p.Completed) (hstage : p.stage = .completed) :
    ((p.phases.get .publish).state = .failed ∧ p.verdict = .failed) ∨
      (p.phases.get .publish).state ≠ .failed ∧
        ((p.statuses.count .failed = 0 ∧ p.verdict = .succeeded) ∨
          (p.statuses.count .failed ≠ 0 ∧
            ((p.statuses.countP UnitStatus.isSuccess = 0 ∧ p.verdict = .failed) ∨
              (p.statuses.countP UnitStatus.isSuccess ≠ 0 ∧ p.verdict = .partialSuccess)))) := by
  have hcodegen : (p.phases.get .codegen).state ≠ .failed := h.early .codegen (by decide)
  have hvalidation : (p.phases.get .validation).state ≠ .failed := h.early .validation (by decide)
  have hverdict : p.verdict =
      if (p.phases.get .publish).state = .failed then .failed
      else if p.statuses.count .failed = 0 then .succeeded
      else if p.statuses.countP UnitStatus.isSuccess = 0 then .failed
      else .partialSuccess := by
    simp [verdict, hstage, hcodegen, hvalidation]
  rw [hverdict]
  split_ifs with hpublish hnone hzero
  · exact Or.inl ⟨hpublish, rfl⟩
  · exact Or.inr ⟨hpublish, Or.inl ⟨hnone, rfl⟩⟩
  · exact Or.inr ⟨hpublish, Or.inr ⟨hnone, Or.inl ⟨hzero, rfl⟩⟩⟩
  · exact Or.inr ⟨hpublish, Or.inr ⟨hnone, Or.inr ⟨hzero, rfl⟩⟩⟩

theorem Completed.succeeded_iff (h : p.Completed) (hstage : p.stage = .completed) :
    p.verdict = .succeeded ↔
      p.statuses.count .failed = 0 ∧ (p.phases.get .publish).state ≠ .failed := by
  rcases h.verdict_cases hstage with
    ⟨_, _⟩ | ⟨_, ⟨_, _⟩ | ⟨_, ⟨_, _⟩ | ⟨_, _⟩⟩⟩ <;> grind

theorem Completed.failed_iff (h : p.Completed) (hstage : p.stage = .completed) :
    p.verdict = .failed ↔
      0 < p.statuses.length ∧ p.statuses.count .failed = p.statuses.length ∨
        (p.phases.get .publish).state = .failed := by
  have hcounted := h.counted
  rcases h.verdict_cases hstage with
    ⟨_, _⟩ | ⟨_, ⟨_, _⟩ | ⟨_, ⟨_, _⟩ | ⟨_, _⟩⟩⟩ <;> grind

theorem Completed.partialSuccess_iff (h : p.Completed) (hstage : p.stage = .completed) :
    p.verdict = .partialSuccess ↔
      (0 < p.statuses.count .failed ∧ p.statuses.count .failed < p.statuses.length) ∧
        (p.phases.get .publish).state ≠ .failed := by
  have hcounted := h.counted
  rcases h.verdict_cases hstage with
    ⟨_, _⟩ | ⟨_, ⟨_, _⟩ | ⟨_, ⟨_, _⟩ | ⟨_, _⟩⟩⟩ <;> grind

theorem Completed.ne_cancelled (h : p.Completed) (hstage : p.stage = .completed) :
    p.verdict ≠ .cancelled := by
  rcases h.verdict_cases hstage with
    ⟨_, _⟩ | ⟨_, ⟨_, _⟩ | ⟨_, ⟨_, _⟩ | ⟨_, _⟩⟩⟩ <;> grind

/-- Where no unit and no phase has failed. -/
theorem Completed.all_succeeded (h : p.Completed) (hnone : p.statuses.count .failed = 0)
    (hpublish : (p.phases.get .publish).state ≠ .failed) :
    (∀ key u, p.units.get? key = some u → u.status = .built ∨ u.status = .published) ∧
      ∀ q, (p.phases.get q).state ≠ .failed := by
  refine ⟨fun key u hu => ?_, fun q => ?_⟩
  · have hmem : u.status ∈ p.statuses :=
      List.mem_map_of_mem (StringMap.mem_values_iff.mpr ⟨key, hu⟩)
    rcases h.mem_statuses hmem with hsuccess | hfailed
    · cases hstatus : u.status <;> simp_all [UnitStatus.isSuccess]
    · rw [hfailed] at hmem
      exact absurd hmem (List.count_eq_zero.mp hnone)
  · cases q with
    | codegen => exact h.early .codegen (by decide)
    | validation => exact h.early .validation (by decide)
    | build => exact h.build_unfailed hnone
    | publish => exact hpublish

/-- The result of a completed build says what has become of it. -/
theorem Completed.faithful (h : p.Completed) (hstage : p.stage = .completed) (time : UInt64) :
    (p.result time).Faithful p.statuses.length (p.statuses.countP UnitStatus.isSuccess)
      (p.statuses.count .failed) := by
  have hcounted := h.counted
  refine
    { total_eq := rfl
      successful_eq := rfl
      failed_eq := rfl
      counted := hcounted
      summed := ⟨rfl, rfl, rfl, ?_⟩
      exact := fun hsize => ⟨Text.toNat_clampWord hsize, ?_⟩
      failed_iff := h.failed_iff hstage
      partialSuccess_iff := h.partialSuccess_iff hstage
      succeeded_iff := h.succeeded_iff hstage
      not_cancelled := h.ne_cancelled hstage
      of_build_failed := fun hbuild => (h.failed_iff hstage).mpr (Or.inl (h.build_failed hbuild))
      firstError_iff := h.firstError_iff.trans (h.succeeded_iff hstage).symm
      of_exitCode := fun hcode => ?_ }
  · show Text.clampWord (p.statuses.count .skipped) = 0
    rw [h.count_skipped]
    rfl
  · show (Text.clampWord _).toNat + (Text.clampWord _).toNat = _
    rw [Text.toNat_clampWord (by omega), Text.toNat_clampWord (by omega), hcounted]
  · have hsucceeded : p.verdict = .succeeded := Verdict.eq_succeeded_of_exitCode hcode
    obtain ⟨hnone, hpublish⟩ := (h.succeeded_iff hstage).mp hsucceeded
    exact h.all_succeeded hnone hpublish

end Progress

namespace Pipeline

open Program

variable {run : Run} {result : BuildResult} {p : Progress}

/-- **A result says what has become of its build.**  However the collaborators answer, whatever the
clock shows and whatever the options are: if a build that has just been asked for ends with a
result, and no search has found a unit twice, the result holds the progress of the end, and it
counts the units that were built and those that have failed, which are all of them.  Its verdict is
a failure if all of the units there are have failed or the publish phase has, a partial success if
some but not all have failed, and else a success; and then, and only then, it shows no error.  A
build phase that has failed makes the verdict a failure, and a command whose exit code is zero has
built each unit and has seen no phase fail. -/
theorem faithful_of_distinct (lake : Workspace) (target : String) (options : BuildOptions)
    (recorded : Option Workspace) (requested branch : String) (time : UInt64)
    (h : Reaches
      (Pipeline.run lake target options
        { target := requested, branch := branch, startTime := time, lake := recorded })
      run (.done (.ok result, p)))
    (hdistinct : Distinct run) :
    result.progress = p ∧ ∃ total successful failed, result.Faithful total successful failed := by
  have hfresh : Progress.Fresh
      { target := requested, branch := branch, startTime := time, lake := recorded } :=
    ⟨fun q => by cases q <;> exact PhaseState.noConfusion, rfl⟩
  have hend : Distinct run → p.Completed ∧ ∃ time, result = p.result time :=
    ensures_iff.mp (ensures_completed lake target options hfresh) _ _ h
  obtain ⟨hcompleted, endTime, rfl⟩ := hend hdistinct
  have hbetween := Progress.between_initial lake requested branch time
  have hended : Ended (options.onLake lake).continueOnFailure False .completed run p := by
    refine ended_of_reaches False.elim ?_ h
    exact ⟨⟨hbetween.through.ended, hbetween.through.waiting⟩, rfl, hbetween.idle⟩
  exact ⟨rfl, _, _, _, hcompleted.faithful hended.stage_eq endTime⟩

/-- The answers to a build whose publish action is not run. -/
def publishFails : (q : Request) → q.Answer
  | .call (.query _ _) => .ok ["//:lib_publish"]
  | .call (.run _ _ _) => .error (.failed "publish" 1 "")
  | q => success q

/-- A build that has built its only unit and could not publish it: its verdict is a failure. -/
theorem failed_of_publishFails :
    ∃ run result p, Reaches
        (Pipeline.run { root := "/lake" } "." { installLocal := true }
          { target := ".", branch := "main", startTime := 0, lake := none }) run
        (.done (.ok result, p)) ∧
      Distinct run ∧ result.Faithful 1 1 0 ∧ result.verdict = .failed := by
  have hrun := reaches_replay publishFails
    (Pipeline.run { root := "/lake" } "." { installLocal := true }
      { target := ".", branch := "main", startTime := 0, lake := none })
  have hdistinct := distinct_replay publishFails (fun root search units h => by
      obtain rfl := Except.ok.inj h
      exact List.nodup_nil)
    (Pipeline.run { root := "/lake" } "." { installLocal := true }
      { target := ".", branch := "main", startTime := 0, lake := none })
  obtain ⟨-, total, successful, failed, hfaithful⟩ :=
    faithful_of_distinct _ _ _ _ _ _ _ hrun hdistinct
  obtain rfl : 1 = total := hfaithful.total_eq
  obtain rfl : 1 = successful := hfaithful.successful_eq
  obtain rfl : 0 = failed := hfaithful.failed_eq
  exact ⟨_, _, _, hrun, hdistinct, hfaithful, hfaithful.failed_iff.mpr (Or.inr rfl)⟩

end Pipeline
end ProtoBuild
