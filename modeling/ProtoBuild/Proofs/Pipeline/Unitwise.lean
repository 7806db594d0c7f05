import ProtoBuild.Proofs.Pipeline.Judgement
import ProtoBuild.Proofs.Pipeline.Phasewise

/-!
# The build phase unit by unit

Within the build phase the units are found, and then they are built one after another.  The phase
has three ways out of this: all units were attempted, the build was asked to stop between two of
them, or a unit has failed and the build does not go on.  `Unitwise` says that a condition on
the units that are left fits to the attempt of a unit and to each of these ways, and
`Phasewise.build` goes through the build phase with it.

That the units are different is passed on as something that holds if no search has found a unit
twice (`Distinct`); a condition that has no use for it leaves it out.
-/

namespace ProtoBuild

namespace Progress

/-- The progress with units that are yet to be built. -/
def withUnits (units : List String) (version : String) (p : Progress) : Progress :=
  { p with
    units := units.foldl (fun m u => m.insert u { target := u, version := version }) p.units }

/-- The progress of a build that was asked to stop before some units, which are skipped. -/
def skipping (units : List String) (time : UInt64) (p : Progress) : Progress :=
  (units.foldl (fun p unit => p.modifyUnit unit fun u => (u.move .skipped time).1) p).modifyPhase
    .build fun r =>
      (r.skip time ("Build cancelled, skipped " ++ toString units.length ++ " units")).1

/-- The progress of a build phase that fails with an error. -/
def failing (time : UInt64) (e : PipelineError) (p : Progress) : Progress :=
  p.modifyPhase .build fun r => (r.fail time e.message).1

/-- A record that stays as it is leaves the progress as it is. -/
theorem modifyPhase_of_eq {p : Progress} {q : Phase} {f : PhaseRecord → PhaseRecord}
    (h : f (p.phases.get q) = p.phases.get q) : p.modifyPhase q f = p := by
  have hphases : p.phases.modify q f = p.phases := by
    cases q <;> simp only [PhaseRecords.get] at h <;> simp only [PhaseRecords.modify, h]
  rw [modifyPhase, hphases]

/-- A build phase that has failed does not fail again. -/
theorem abortedIn_failing (p : Progress) (time time' : UInt64) (e : PipelineError) :
    Pipeline.abortedIn .build time' e (p.failing time e) =
      ((p.failing time e).advance .failed).1 := by
  have hfinal : ((p.failing time e).phases.get .build).isFinal = true := by
    rw [failing, get_modifyPhase_self]
    exact PhaseRecord.isFinal_fail _ time e.message
  rw [Pipeline.abortedIn, modifyPhase_of_eq]
  rw [PhaseRecord.fail, PhaseRecord.finish_of_isFinal hfinal]

end Progress

namespace Pipeline

open Work Progress

variable {run : Run} {p : Progress} {k : Nat} {q : Phase} {e : PipelineError}

/-! ## Units that are skipped -/

theorem ensures_forM_modifyUnit_iff {Q : Unit → Assertion} {E : PipelineError → Assertion}
    (g : UnitRecord → UnitRecord) (units : List String) :
    Ensures (units.forM fun unit => modifyUnit unit g) Q E run p ↔
      Q () run (units.foldl (fun p unit => p.modifyUnit unit g) p) := by
  induction units generalizing p with
  | nil => exact Iff.rfl
  | cons unit rest ih =>
    show Ensures (modifyUnit unit g >>= fun _ => rest.forM fun unit => modifyUnit unit g) Q E
      run p ↔ _
    rw [ensures_bind, ensures_modifyUnit]
    exact ih

theorem ensures_skipUnits_iff {Q : Unit → Assertion} {E : PipelineError → Assertion}
    (units : List String) :
    Ensures (skipUnits units) Q E run p ↔
      ∀ time, Q () (run ++ [timed time]) (p.skipping units time) := by
  simp only [skipUnits, ensures_bind, ensures_now, ensures_forM_modifyUnit_iff,
    ensures_modifyPhase]
  exact Iff.rfl

/-! ## Conditions that fit to the units -/

/-- A condition on the units that are left fits to the build phase. -/
structure Unitwise (In Over : Phase → Assertion) (Halted : PipelineError → Assertion)
    (Ready : List String → Assertion) : Prop where
  begin : ∀ {run p units} version, In .build run p → (Distinct run → units.Nodup) →
    Ready units (run ++ [told (.updated (p.withUnits units version))]) (p.withUnits units version)
  look : ∀ {run p units}, Ready units run p → Ready units (run ++ [looked false]) p
  attempt : ∀ {run p unit rest} lake args, Ready (unit :: rest) run p →
    Ensures (buildUnit lake args unit) (fun _ => Ready rest) (fun _ _ _ => True) run p
  keeps : ∀ units, Keeps Annotates (fun _ => False) (Ready units)
  stop : ∀ {run p units} time, Ready units run p →
    Stops Halted (run ++ [looked true, timed time, told (.updated (p.skipping units time))])
      (p.skipping units time)
  fail : ∀ {run p units e} time, e.isInner = true → Ready units run p →
    Aborts Halted .build e (run ++ [timed time, told (.updated (p.failing time e))])
      (p.failing time e)
  close : ∀ {run p f} time, (∀ r : PhaseRecord, r.Ends time (f r)) → Ready [] run p →
    Over .build (run ++ [timed time]) (p.modifyPhase .build f)

variable {Out : Nat → Assertion} {In Over : Phase → Assertion}
  {Halted : PipelineError → Assertion} {Ready : List String → Assertion}

/-- A build phase that is stopped stops the build. -/
theorem breaks_of_stops (h : Stops Halted run p) : Breaks Halted .cancelled run p := h

/-- An error within the build phase ends the build. -/
theorem breaks_of_aborts (he : e.isInner = true) (h : Aborts Halted .build e run p) :
    Breaks Halted e run p := by
  rw [Breaks, if_neg (PipelineError.not_cancelled_of_isInner he)]
  exact h

/-- The units are built one after another. -/
theorem Unitwise.buildUnits (hu : Unitwise In Over Halted Ready) (lake : Workspace)
    (args : List String) (goOn : Bool) (units : List String) (hp : Ready units run p) :
    Ensures (buildUnits lake args goOn units) (fun _ => Ready []) (Breaks Halted) run p := by
  induction units generalizing run p with
  | nil => exact hp
  | cons unit rest ih =>
    simp only [Pipeline.buildUnits, ensures_bind, ensures_isCancelled]
    intro stopped
    cases stopped with
    | true =>
      simp only [if_true, ensures_bind, ensures_skipUnits_iff, ensures_push, ensures_throw,
        List.append_assoc, List.cons_append, List.nil_append]
      exact fun time => breaks_of_stops (hu.stop time hp)
    | false =>
      -- the attempt throws nothing, so its errors need not be looked at
      have hattempt := (hu.attempt lake args (hu.look hp)).and (total_buildUnit lake args unit _ _)
      simp only [Bool.false_eq_true, if_false, ensures_bind]
      refine hattempt.mono ?_ fun _ _ _ h => h.2.elim
      rintro answer run p ⟨hp, -⟩
      cases answer with
      | ok _ =>
        simp only [ensures_bind, ensures_push]
        exact ih ((hu.keeps rest).push hp)
      | error reason =>
        dsimp only
        split
        · simp only [ensures_bind, ensures_modifyPhase, ensures_push, ensures_pure]
          exact ih ((hu.keeps rest).push ((hu.keeps rest).modify _ (annotates_modifyPhase .build
            (fun r => r.leads_addLog _) fun r => r.noted_addLog _) hp))
        · simp only [ensures_bind, ensures_now, ensures_modifyPhase, ensures_push, ensures_throw,
            List.append_assoc, List.cons_append, List.nil_append]
          exact fun time => breaks_of_aborts rfl (hu.fail time rfl hp)

namespace Phasewise

variable (h : Phasewise Out In Over Halted)

include h

theorem cleanCache (lake : Workspace) (hp : In .build run p) :
    Ensures (cleanCache lake) (fun _ => In .build) (Breaks Halted) run p := by
  simp only [Pipeline.cleanCache, ensures_bind, ensures_modifyPhase, ensures_push]
  refine (ensures_call _).mpr fun answer => ?_
  have hpushed := (h.keeps (i := 3) (j := 3) (Or.inl (by decide))).push
    (h.named "Cleaning build cache" hp)
  have hasked := h.asked (c := .clean lake.root) answer (by simp [Call.rank]) hpushed
  cases answer with
  | error e =>
    rw [ensures_orThrow_error]
    exact breaks_of_aborts rfl (h.abort rfl hasked)
  | ok _ =>
    simp only [ensures_orThrow_ok]
    exact h.logged _ hasked

theorem resolveUnits (lake : Workspace) (mode : ResolutionMode) (target : String)
    (hp : In .build run p) :
    Ensures (resolveUnits lake mode target)
      (fun units run p => In .build run p ∧ (Distinct run → units.Nodup)) (Breaks Halted)
      run p := by
  have hfound : Ensures (Pipeline.resolveUnits lake mode target) (fun _ => In .build)
      (Breaks Halted) run p := by
    cases mode with
    | direct => exact hp
    | isolated =>
      simp only [Pipeline.resolveUnits, ensures_bind, ensures_modifyPhase]
      refine (ensures_call _).mpr fun answer => ?_
      have hasked := h.asked (c := .discover lake.root target) answer (by simp [Call.rank])
        (h.named "Discovering bundle targets" hp)
      cases answer with
      | error e =>
        rw [ensures_orThrow_error]
        exact breaks_of_aborts rfl (h.abort rfl hasked)
      | ok units =>
        simp only [ensures_orThrow_ok, ensures_pure]
        exact h.logged _ hasked
  exact (hfound.and (ensures_resolveUnits_distinct lake mode target)).mono
    (fun _ _ _ h => h) fun _ _ _ h => h.1

/-- **The build phase unit by unit.** -/
theorem build (hu : Unitwise In Over Halted Ready) (lake : Workspace) (target : String)
    (options : RunOptions) (hp : In .build run p) :
    Ensures (build lake target options) (fun _ => Over .build) (Breaks Halted) run p := by
  unfold Pipeline.build
  extract_lets buildAll
  have hbuildAll : ∀ (run : Run) (p : Progress), In .build run p →
      Ensures (buildAll ()) (fun _ => Over .build) (Breaks Halted) run p := by
    intro run p hp
    refine (h.resolveUnits lake options.mode target hp).bind ?_
    rintro units run p ⟨hp, hunits⟩
    split
    · simp only [ensures_bind, ensures_now, ensures_modifyPhase]
      exact fun time => h.close time (fun r => r.ends_skip time _) hp
    · simp only [ensures_bind, ensures_get, ensures_modify, ensures_push]
      refine (hu.buildUnits lake _ _ units (hu.begin _ hp hunits)).mono (fun failed run p hp => ?_)
        fun _ _ _ h => h
      simp only [endBuild, ensures_bind, ensures_now, ensures_modifyPhase]
      refine fun time => hu.close time (fun r => ?_) hp
      split
      · exact r.ends_fail time _
      · exact (r.noted_addLog _).ends (PhaseRecord.ends_succeed _ time)
  split
  · exact (h.cleanCache lake hp).bind fun _ run p hp => hbuildAll run p hp
  · exact hbuildAll run p hp

end Phasewise

end Pipeline
end ProtoBuild
