import ProtoBuild.Proofs.Pipeline.Order
import ProtoBuild.Proofs.Pipeline.Phases

/-!
# Stage by stage to a coherent end

A build can end in many places, and two parts of it write the end of the same phase: the
build and the publish phase end themselves, and an error that leaves them ends the phase
once more.  `Ended` is what all these places have in common, and each part of a build is
followed from what is known before it to what is known after it, with `Ended` for each of
its errors.

## What a part has to keep

A part that follows another needs to know two things of it: which call may come next
(`Clear`), and that the phases before it are over (`Progress.Between`).  An error may come
out of the build phase with its record in any state; only when the build was asked to stop
the phase must have ended itself before, since a stop ends no phase (`ensures_build`).
-/

namespace ProtoBuild

namespace PipelineError

/-- The stage in which a build stands that has ended with an error. -/
def stage (e : PipelineError) : Stage :=
  if e.isCancelled then .cancelled else .failed

theorem stage_of_not {e : PipelineError} (h : ¬ e.isCancelled = true) : e.stage = .failed :=
  if_neg h

end PipelineError

namespace Pipeline

open Work

/-- The last progress that the listener was shown. -/
def lastShown? (run : Run) : Option Progress :=
  ((events run).filterMap Event.progress?).getLast?

/-- A build has ended in a stage: its calls were proper, some of the first phases are over
and the others have not started, no unit is being built, and the listener was shown all
this. -/
structure Ended (goOn : Bool) (outside : Prop) (stage : Stage) (run : Run) (p : Progress) :
    Prop where
  proper : Proper goOn outside (calls run)
  through : ∃ k, p.Through k
  idle : p.Idle
  stage_eq : p.stage = stage
  shown : lastShown? run = some p

variable {goOn : Bool} {outside : Prop} {run more : Run} {p q : Progress} {phase : Phase}
  {stage : Stage} {k : Nat}

theorem lastShown?_append (h : lastShown? more = some q) : lastShown? (run ++ more) = some q := by
  rw [lastShown?] at h
  rw [lastShown?, events_append, List.filterMap_append, List.getLast?_append, h]
  rfl

/-- What is no call leaves the way clear. -/
theorem Clear.silent (h : Clear goOn k (calls run)) (hmore : calls more = []) :
    Clear goOn k (calls (run ++ more)) := by
  rw [calls_append, hmore, List.append_nil]
  exact h

/-- How a build ends: without a further call, and with a last look at the progress. -/
theorem ended_append (hproper : Proper goOn outside (calls run)) (hmore : calls more = [])
    (hshown : lastShown? more = some q) (hthrough : q.Through k) (hidle : q.Idle)
    (hstage : q.stage = stage) : Ended goOn outside stage (run ++ more) q where
  proper := by
    rw [calls_append, hmore, List.append_nil]
    exact hproper
  through := ⟨k, hthrough⟩
  idle := hidle
  stage_eq := hstage
  shown := lastShown?_append hshown

/-- A build that goes on can end in each final stage. -/
theorem ended_of_between (hp : p.Between k) (hproper : Proper goOn outside (calls run))
    (hstage : stage.isFinal = true) (hmore : calls more = [])
    (hshown : lastShown? more = some (p.advance stage).1) :
    Ended goOn outside stage (run ++ more) (p.advance stage).1 :=
  ended_append hproper hmore hshown hp.through.advance hp.idle.advance
    (Progress.stage_advance_of_isFinal hp.active hstage)

/-- An error in a phase ends the build. -/
theorem ended_of_during {e : PipelineError} {time : UInt64} (hp : p.During phase)
    (hproper : Proper goOn outside (calls run)) (hmore : calls more = [])
    (hshown : lastShown? more = some (abortedIn phase time e p)) :
    Ended goOn outside .failed (run ++ more) (abortedIn phase time e p) := by
  obtain ⟨hthrough, hidle, hstage⟩ := hp.abort time e
  exact ended_append hproper hmore hshown hthrough hidle hstage

/-! ## Generation and checks -/

theorem ensures_generate (lake : Workspace) (hclear : Clear goOn 1 (calls run))
    (hp : p.Between Phase.codegen.index) :
    Ensures (generate lake)
      (fun _ run p => Clear goOn 2 (calls run) ∧ p.Between Phase.validation.index)
      (fun e => Ended goOn outside e.stage) run p := by
  simp only [generate, ensures_bind, ensures_enter]
  refine ⟨?_, fun time => (ensures_call _).mpr ?_⟩
  · exact ended_of_between hp (hclear.proper fun _ => by omega) rfl rfl rfl
  · rintro ⟨notes, answer⟩
    simp only [ensures_writeNotes]
    have hduring : ((enteredInto .codegen time p).modifyPhase .codegen fun r =>
        notes.foldl Note.write r).During .codegen := (hp.enter time).modifyPhase
    cases answer with
    | error e =>
      simp only [ensures_abort_some]
      intro time'
      refine ended_of_during hduring ?_ rfl rfl
      simpa using hclear.proper_concat rfl fun _ => by omega
    | ok _ =>
      simp only [ensures_bind, ensures_now, ensures_modifyPhase, ensures_leave]
      intro time'
      refine ⟨?_, hduring.finish fun r => r.isFinal_succeed time'⟩
      simpa using hclear.concat rfl rfl (Or.inl (Nat.lt_succ_self 1))

theorem ensures_recordReport (report : CheckReport) (hproper : Proper goOn outside (calls run))
    (hok : (report.skipped.isNone && ! report.success) = false → Clear goOn 3 (calls run))
    (hp : p.During .validation) :
    Ensures (recordReport report)
      (fun _ run p => Clear goOn 3 (calls run) ∧ p.Between Phase.build.index)
      (fun e => Ended goOn outside e.stage) run p := by
  simp only [recordReport, ensures_bind, ensures_now, ensures_modifyPhase]
  intro time
  have hduring := hp.modifyPhase (f := fun r =>
    report.findings.foldl (fun r f => r.addLog f.text) r)
  cases hs : report.skipped with
  | some reason =>
    simp only [ensures_modifyPhase]
    refine ⟨?_, hduring.finish fun r => r.isFinal_skip time reason⟩
    simpa using hok (by simp [hs])
  | none =>
    dsimp only
    split
    · rename_i hsuccess
      simp only [ensures_modifyPhase]
      refine ⟨?_, hduring.finish fun r => r.isFinal_succeed time⟩
      simpa using hok (by simp [hs, hsuccess])
    · simp only [ensures_abort_some]
      intro time'
      refine ended_of_during hduring ?_ rfl rfl
      simpa using hproper

theorem ensures_validate (lake : Workspace) (options : BuildOptions)
    (hclear : Clear goOn 2 (calls run)) (hp : p.Between Phase.validation.index) :
    Ensures (validate lake options)
      (fun _ run p => Clear goOn 3 (calls run) ∧ p.Between Phase.build.index)
      (fun e => Ended goOn outside e.stage) run p := by
  simp only [validate, ensures_bind, ensures_enter]
  refine ⟨?_, fun time => ?_⟩
  · exact ended_of_between hp (hclear.proper fun _ => by omega) rfl rfl rfl
  · have hentered : (enteredInto .validation time p).During .validation := hp.enter time
    split
    · simp only [ensures_bind, ensures_now, ensures_modifyPhase, ensures_leave]
      intro time'
      refine ⟨?_, hentered.finish fun r => r.isFinal_skip time' _⟩
      simpa using hclear.mono (Nat.le_succ 2)
    · simp only [ensures_bind]
      refine (ensures_call _).mpr ?_
      rintro ⟨notes, answer⟩
      simp only [ensures_writeNotes]
      have hduring : ((enteredInto .validation time p).modifyPhase .validation fun r =>
          notes.foldl Note.write r).During .validation := hentered.modifyPhase
      cases answer with
      | error e =>
        simp only [ensures_bind, ensures_abort_some]
        intro time'
        refine ended_of_during hduring ?_ rfl rfl
        simpa using hclear.proper_concat rfl fun _ => by omega
      | ok report =>
        refine (ensures_recordReport report ?_ ?_ hduring).bind ?_
        · simpa using hclear.proper_concat rfl fun _ => by omega
        · intro hok
          simpa using hclear.concat (x := ⟨.validate lake, (notes, .ok report)⟩) rfl hok
            (Or.inl (Nat.lt_succ_self 2))
        · rintro _ run p ⟨hclear, hp⟩
          rw [ensures_leave]
          exact ⟨by simpa using hclear, hp⟩

/-! ## The build phase -/

/-- What an error of the build phase leaves: the calls were proper and the build is within the
phase, and the phase is over if the build was asked to stop. -/
structure Broken (goOn : Bool) (outside : Prop) (e : PipelineError) (run : Run) (p : Progress) :
    Prop where
  proper : Proper goOn outside (calls run)
  during : p.During .build
  ended : e.isCancelled = true → p.Between Phase.publish.index

theorem ensures_cleanCache (lake : Workspace) (hin : ¬ outside)
    (hclear : Clear goOn 3 (calls run)) (hp : p.During .build) :
    Ensures (cleanCache lake)
      (fun _ run p => Clear goOn 4 (calls run) ∧ p.During .build)
      (Broken goOn outside) run p := by
  simp only [cleanCache, ensures_bind, ensures_modifyPhase, ensures_push]
  refine (ensures_call _).mpr ?_
  intro answer
  cases answer with
  | error e =>
    simp only [ensures_orThrow_error]
    refine ⟨?_, hp.modifyPhase, fun h => absurd h Bool.false_ne_true⟩
    simpa using hclear.proper_concat rfl fun ho => absurd ho hin
  | ok _ =>
    simp only [ensures_orThrow_ok]
    refine ⟨?_, hp.modifyPhase.modifyPhase⟩
    simpa using hclear.concat rfl rfl (Or.inl (Nat.lt_succ_self 3))

theorem ensures_resolveUnits (lake : Workspace) (mode : ResolutionMode) (target : String)
    (hin : ¬ outside) (hclear : Clear goOn 4 (calls run)) (hp : p.During .build) :
    Ensures (resolveUnits lake mode target)
      (fun _ run p => Clear goOn 5 (calls run) ∧ p.During .build)
      (Broken goOn outside) run p := by
  cases mode with
  | direct => exact ⟨hclear.mono (Nat.le_succ 4), hp⟩
  | isolated =>
    simp only [resolveUnits, ensures_bind, ensures_modifyPhase]
    refine (ensures_call _).mpr ?_
    intro answer
    cases answer with
    | error e =>
      simp only [ensures_orThrow_error]
      refine ⟨?_, hp.modifyPhase, fun h => absurd h Bool.false_ne_true⟩
      simpa using hclear.proper_concat rfl fun ho => absurd ho hin
    | ok units =>
      simp only [ensures_orThrow_ok, ensures_pure]
      refine ⟨?_, hp.modifyPhase.modifyPhase⟩
      simpa using hclear.concat rfl rfl (Or.inl (Nat.lt_succ_self 4))

/-- A unit that has failed is with the build tool no longer. -/
theorem ensures_failUnit {Q : Except String Unit → Assertion} {E : PipelineError → Assertion}
    (unit reason : String) (now : UInt64) (hinside : p.Inside .build) (hbut : p.IdleBut unit)
    (hQ : ∀ p : Progress, p.During .build → Q (.error reason) run p) :
    Ensures (failUnit unit reason now) Q E run p := by
  simp only [failUnit, ensures_bind, ensures_modifyUnit, ensures_pure]
  exact hQ _ ⟨hinside.modifyUnit, hbut.idle fun u => UnitRecord.fail_ne_building reason now⟩

/-- What the attempt to build a unit leaves: the build is within its phase, and the next unit
may be attempted unless this one has failed and the build is not to go on. -/
structure Attempted (goOn : Bool) (outside : Prop) (answer : Except String Unit) (run : Run)
    (p : Progress) : Prop where
  proper : Proper goOn outside (calls run)
  during : p.During .build
  next : answer.isOk = true ∨ goOn = true → Clear goOn 5 (calls run)

theorem ensures_buildUnit {E : PipelineError → Assertion} (lake : Workspace)
    (args : List String) (unit : String) (hin : ¬ outside) (hclear : Clear goOn 5 (calls run))
    (hp : p.During .build) :
    Ensures (buildUnit lake args unit) (Attempted goOn outside) E run p := by
  simp only [buildUnit, ensures_bind, ensures_modifyPhase, ensures_now, ensures_modifyUnit]
  intro started
  refine (ensures_call _).mpr fun answer ended => ?_
  obtain ⟨hinside, hbut⟩ := (hp.modifyPhase (f := fun r =>
    (r.setSubPhase ("Building " ++ unit)).addLog ("Building: " ++ unit))).modifyUnit_but unit
      fun u => (u.move .building started).1
  -- there is no further call, so what matters of the run is this one
  have hcalls : calls (run ++ [timed started] ++
      [called (.build lake.root args (Path.pattern unit)) answer] ++ [timed ended]) =
        calls run ++ [⟨.build lake.root args (Path.pattern unit), answer⟩] := by simp
  generalize run ++ [timed started] ++
    [called (.build lake.root args (Path.pattern unit)) answer] ++ [timed ended] = run at hcalls ⊢
  have hproper : Proper goOn outside (calls run) := by
    rw [hcalls]
    exact hclear.proper_concat rfl fun ho => absurd ho hin
  have hnext : Answered.fails goOn ⟨.build lake.root args (Path.pattern unit), answer⟩ = false →
      Clear goOn 5 (calls run) := by
    intro hok
    rw [hcalls]
    exact hclear.concat rfl hok (Or.inr ⟨rfl, rfl⟩)
  have hfailed : ∀ reason (p : Progress), p.During .build →
      Attempted goOn outside (.error reason) run p := by
    intro reason p hp
    refine ⟨hproper, hp, ?_⟩
    rintro (hok | rfl)
    · exact absurd hok Bool.false_ne_true
    · exact hnext (by cases answer <;> rfl)
  cases answer with
  | error e =>
    dsimp only
    split
    · simp only [ensures_bind, ensures_modifyUnit]
      exact ensures_failUnit _ _ _ hinside.modifyUnit hbut.modifyUnit (hfailed _)
    · exact ensures_failUnit _ _ _ hinside hbut (hfailed _)
  | ok output =>
    simp only [ensures_bind, ensures_modifyUnit]
    split
    · rename_i husable
      have hclear' : Clear goOn 5 (calls run) := hnext (by simp [Answered.fails, husable])
      have hidle := (hbut.modifyUnit (g := fun u => u.addLog (output.tail keptLines))).idle
        (g := fun u => (u.move .built ended).1) fun u => UnitRecord.move_ne_building rfl ended
      have hduring := Progress.During.mk hinside.modifyUnit.modifyUnit hidle
      simp only [ensures_bind, ensures_modifyUnit]
      split
      · simp only [ensures_bind, ensures_modifyPhase, ensures_pure]
        exact ⟨hproper, hduring.modifyPhase.modifyPhase, fun _ => hclear'⟩
      · simp only [ensures_bind, ensures_modifyPhase, ensures_pure]
        exact ⟨hproper, hduring.modifyPhase, fun _ => hclear'⟩
    · exact ensures_failUnit _ _ _ hinside.modifyUnit hbut.modifyUnit (hfailed _)

/-- What is done to one unit after another leaves a build within its phase. -/
theorem ensures_forM_modifyUnit {Q : Unit → Assertion} {E : PipelineError → Assertion}
    {g : UnitRecord → UnitRecord} (hg : ∀ u, u.status ≠ .building → (g u).status ≠ .building)
    (units : List String) (hp : p.During phase)
    (hQ : ∀ p : Progress, p.During phase → Q () run p) :
    Ensures (units.forM fun unit => modifyUnit unit g) Q E run p := by
  induction units generalizing p with
  | nil => exact hQ p hp
  | cons unit rest ih =>
    show Ensures (modifyUnit unit g >>= fun _ => rest.forM fun unit => modifyUnit unit g) Q E run p
    rw [ensures_bind, ensures_modifyUnit]
    exact ih (hp.modifyUnit hg)

/-- The units that were not attempted are skipped, and the phase is over. -/
theorem ensures_skipUnits {E : PipelineError → Assertion} (units : List String)
    (hproper : Proper goOn outside (calls run)) (hp : p.During .build) :
    Ensures (skipUnits units)
      (fun _ run p => Proper goOn outside (calls run) ∧ p.Between Phase.publish.index) E run p := by
  simp only [skipUnits, ensures_bind, ensures_now]
  intro time
  have hskip : ∀ u : UnitRecord, u.status ≠ .building →
      (u.move .skipped time).1.status ≠ .building :=
    fun u _ => UnitRecord.move_ne_building rfl time
  refine ensures_forM_modifyUnit hskip units hp fun p hp => ?_
  rw [ensures_modifyPhase]
  refine ⟨?_, hp.finish fun r => r.isFinal_skip time _⟩
  simpa using hproper

/-- While units are built one after another the build stays within its phase; and if it is
asked to stop, the phase is over before the build learns of it. -/
theorem ensures_buildUnits (lake : Workspace) (args : List String) (units : List String)
    (hin : ¬ outside) (hclear : Clear goOn 5 (calls run)) (hp : p.During .build) :
    Ensures (buildUnits lake args goOn units)
      (fun _ run p => Clear goOn 5 (calls run) ∧ p.During .build)
      (Broken goOn outside) run p := by
  induction units generalizing run p with
  | nil => exact ⟨hclear, hp⟩
  | cons unit rest ih =>
    have hproper : Proper goOn outside (calls run) := hclear.proper fun ho => absurd ho hin
    simp only [buildUnits, ensures_bind, ensures_isCancelled]
    intro stopped
    split
    · have hlooked : Proper goOn outside (calls (run ++ [looked stopped])) := by simpa using hproper
      refine (ensures_skipUnits (unit :: rest) hlooked hp).bind ?_
      rintro _ run p ⟨hproper, hp⟩
      have hover : p.Between (Phase.build.index + 1) := hp
      simp only [ensures_bind, ensures_push, ensures_throw]
      refine ⟨?_, hover.during, fun _ => hover⟩
      simpa using hproper
    · have hlooked : Clear goOn 5 (calls (run ++ [looked stopped])) := by simpa using hclear
      refine (ensures_buildUnit lake args unit hin hlooked hp).bind ?_
      rintro answer run p ⟨hproper, hp, hnext⟩
      cases answer with
      | ok _ =>
        simp only [ensures_bind, ensures_push]
        refine ih ?_ hp
        simpa using hnext (Or.inl rfl)
      | error reason =>
        dsimp only
        split
        · rename_i hgoOn
          simp only [ensures_bind, ensures_modifyPhase, ensures_push, ensures_pure]
          refine ih ?_ hp.modifyPhase
          simpa using hnext (Or.inr hgoOn)
        · simp only [ensures_bind, ensures_now, ensures_modifyPhase, ensures_push, ensures_throw]
          intro time
          refine ⟨?_, hp.modifyPhase, fun h => absurd h Bool.false_ne_true⟩
          simpa using hproper

theorem ensures_endBuild {E : PipelineError → Assertion} (attempted failed : Nat)
    (hclear : Clear goOn 5 (calls run)) (hp : p.During .build) :
    Ensures (endBuild attempted failed)
      (fun _ run p => Clear goOn 5 (calls run) ∧ p.Between Phase.publish.index) E run p := by
  simp only [endBuild, ensures_bind, ensures_now, ensures_modifyPhase]
  intro time
  refine ⟨by simpa using hclear, hp.finish fun r => ?_⟩
  split
  · exact r.isFinal_fail time _
  · exact PhaseRecord.isFinal_succeed _ time

/-- **The build phase.**  It ends with its phase over, or with an error within it. -/
theorem ensures_build (lake : Workspace) (target : String) (options : RunOptions)
    (hin : ¬ outside) (hclear : Clear options.continueOnFailure 3 (calls run))
    (hp : p.During .build) :
    Ensures (build lake target options)
      (fun _ run p => Clear options.continueOnFailure 5 (calls run) ∧
        p.Between Phase.publish.index)
      (Broken options.continueOnFailure outside) run p := by
  unfold build
  extract_lets buildAll
  have hbuildAll : ∀ (run : Run) (p : Progress), Clear options.continueOnFailure 4 (calls run) →
      p.During .build → Ensures (buildAll ())
        (fun _ run p => Clear options.continueOnFailure 5 (calls run) ∧
          p.Between Phase.publish.index)
        (Broken options.continueOnFailure outside) run p := by
    intro run p hclear hp
    refine (ensures_resolveUnits lake options.mode target hin hclear hp).bind ?_
    rintro units run p ⟨hclear, hp⟩
    split
    · simp only [ensures_bind, ensures_now, ensures_modifyPhase]
      intro time
      refine ⟨?_, hp.finish fun r => r.isFinal_skip time _⟩
      simpa using hclear
    · simp only [ensures_bind, ensures_get, ensures_modify, ensures_push]
      refine (ensures_buildUnits lake _ units hin ?_ ?_).mono
        (fun failed run p h => ensures_endBuild units.length failed h.1 h.2) fun _ _ _ he => he
      · simpa using hclear
      · exact ⟨⟨⟨hp.ended, hp.waiting⟩, hp.active⟩, hp.idle.insertAll units _⟩
  split
  · exact (ensures_cleanCache lake hin hclear hp).bind fun _ run p h => hbuildAll run p h.1 h.2
  · exact hbuildAll run p (hclear.mono (Nat.le_succ 3)) hp

theorem ensures_buildTarget (lake : Workspace) (target : String) (options : BuildOptions)
    (hout : outside → lake.relative? target = none)
    (hclear : Clear (options.onLake lake).continueOnFailure 3 (calls run))
    (hp : p.Between Phase.build.index) :
    Ensures (buildTarget lake target options)
      (fun _ run p => ¬ outside ∧ Clear (options.onLake lake).continueOnFailure 5 (calls run) ∧
        p.Between Phase.publish.index)
      (fun e => Ended (options.onLake lake).continueOnFailure outside e.stage) run p := by
  simp only [buildTarget, ensures_bind, ensures_enter]
  refine ⟨?_, fun time => ?_⟩
  · exact ended_of_between hp (hclear.proper fun _ => by omega) rfl rfl rfl
  · have hentered : (enteredInto .build time p).During .build := hp.enter time
    cases hplace : lake.relative? target with
    | none =>
      simp only [ensures_abort_some]
      intro time'
      refine ended_of_during hentered ?_ rfl rfl
      simpa using hclear.proper fun _ => by omega
    | some place =>
      have hin : ¬ outside := by
        intro ho
        rw [hout ho] at hplace
        exact absurd hplace (by simp)
      simp only [ensures_bind, ensures_tryCatch]
      refine (ensures_build lake place (options.onLake lake) hin ?_ hentered).mono ?_ ?_
      · simpa using hclear
      · rintro _ run p ⟨hclear, hp⟩
        simp only [ensures_leave, ensures_pure]
        exact ⟨hin, by simpa using hclear, hp⟩
      · rintro e run p ⟨hproper, hduring, hover⟩
        split
        · rename_i hcancelled
          simp only [ensures_stop]
          exact ended_of_between (hover hcancelled) hproper rfl rfl rfl
        · rename_i hfailed
          simp only [ensures_abort_some]
          intro time'
          rw [PipelineError.stage_of_not hfailed]
          exact ended_of_during hduring hproper rfl rfl

/-! ## The publish phase -/

theorem publishedUnit_ne_building (lake : Workspace) (unit label : String) (now : UInt64)
    {u : UnitRecord} (h : u.status ≠ .building) :
    (publishedUnit lake unit label now u).status ≠ .building := by
  unfold publishedUnit
  extract_lets v
  have hv : v.status ≠ .building := by
    unfold v
    split
    · exact h
    · exact h
  split
  · exact UnitRecord.move_ne_building_of_ne hv UnitStatus.noConfusion now
  · exact hv

theorem ensures_publishOne {E : PipelineError → Assertion} (lake : Workspace)
    (label unit : String) (hclear : Clear goOn 7 (calls run)) (hp : p.During .publish) :
    Ensures (publishOne lake label unit)
      (fun _ run p => Clear goOn 7 (calls run) ∧ p.During .publish) E run p := by
  simp only [publishOne, ensures_bind, ensures_modifyPhase]
  refine (ensures_call _).mpr fun answer => ?_
  -- an action that was not run does not keep the next one from being run
  have hnext : Clear goOn 7 (calls run ++ [⟨.run lake.root label [], answer⟩]) :=
    hclear.concat rfl rfl (Or.inr ⟨rfl, rfl⟩)
  cases answer with
  | ok output =>
    simp only [ensures_bind, ensures_now, ensures_modifyUnit, ensures_modifyPhase, ensures_push,
      ensures_pure]
    intro time
    refine ⟨?_, (hp.modifyPhase.modifyUnit fun u hu => ?_).modifyPhase⟩
    · simpa using hnext
    · exact publishedUnit_ne_building lake unit label time hu
  | error e =>
    simp only [ensures_bind, ensures_modifyUnit, ensures_modifyPhase, ensures_push, ensures_pure]
    refine ⟨?_, hp.modifyPhase.modifyPhase.modifyUnit fun u hu => hu⟩
    simpa using hnext

theorem ensures_publishAll {E : PipelineError → Assertion} (lake : Workspace)
    (plan : List (String × String)) (hclear : Clear goOn 7 (calls run)) (hp : p.During .publish) :
    Ensures (publishAll lake plan)
      (fun _ run p => Clear goOn 7 (calls run) ∧ p.During .publish) E run p := by
  induction plan generalizing run p with
  | nil => exact ⟨hclear, hp⟩
  | cons step rest ih =>
    refine (ensures_publishOne lake step.1 step.2 hclear hp).bind ?_
    rintro ok run p ⟨hclear, hp⟩
    refine (ih hclear hp).bind ?_
    rintro published run p h
    exact h

/-- The publish phase ends with its phase over, or with an error within it that is no stop. -/
theorem ensures_publish (lake : Workspace) (target : String) (hin : ¬ outside)
    (hclear : Clear goOn 6 (calls run)) (hp : p.During .publish) :
    Ensures (publish lake target)
      (fun _ run p => Clear goOn 7 (calls run) ∧ p.Between (Phase.publish.index + 1))
      (fun e run p => Proper goOn outside (calls run) ∧ p.During .publish ∧ e.stage = .failed)
      run p := by
  simp only [publish, ensures_bind, ensures_modifyPhase]
  refine (ensures_call _).mpr fun answer => ?_
  cases answer with
  | error e =>
    simp only [ensures_orThrow_error]
    refine ⟨?_, hp.modifyPhase, rfl⟩
    simpa using hclear.proper_concat rfl fun ho => absurd ho hin
  | ok labels =>
    have hnext : Clear goOn 7
        (calls (run ++ [called (.query lake.root (publishQuery target)) (.ok labels)])) := by
      simpa using hclear.concat rfl rfl (Or.inl (Nat.lt_succ_self 6))
    simp only [ensures_orThrow_ok, builtUnits, ensures_bind, ensures_get, ensures_pure]
    split
    · simp only [ensures_bind, ensures_now, ensures_modifyPhase]
      intro time
      refine ⟨?_, hp.modifyPhase.finish fun r => r.isFinal_skip time _⟩
      simpa using hnext
    · refine (ensures_publishAll lake _ hnext hp.modifyPhase).bind ?_
      rintro published run p ⟨hclear, hp⟩
      simp only [ensures_bind, ensures_now, ensures_modifyPhase]
      intro time
      refine ⟨hclear.silent rfl, hp.finish fun r => ?_⟩
      split
      · exact r.isFinal_fail time _
      · exact PhaseRecord.isFinal_succeed _ time

theorem ensures_publishTarget (lake : Workspace) (place : String) (hin : ¬ outside)
    (hclear : Clear goOn 6 (calls run)) (hp : p.Between Phase.publish.index) :
    Ensures (publishTarget lake place)
      (fun _ run p => Clear goOn 7 (calls run) ∧ p.Between (Phase.publish.index + 1))
      (fun e => Ended goOn outside e.stage) run p := by
  have hproper : Proper goOn outside (calls run) := hclear.proper fun ho => absurd ho hin
  simp only [publishTarget, ensures_bind, ensures_enter, ensures_tryCatch]
  refine ⟨?_, fun time => ?_⟩
  · exact ended_of_between hp hproper rfl rfl rfl
  · refine (ensures_publish lake place hin (hclear.silent rfl) (hp.enter time)).mono ?_ ?_
    · rintro _ run p ⟨hclear, hp⟩
      rw [ensures_leave]
      exact ⟨hclear.silent rfl, hp⟩
    · rintro e run p ⟨hproper, hp, hstage⟩
      rw [ensures_abort_some]
      intro time'
      rw [hstage]
      exact ended_of_during hp hproper rfl rfl

/-! ## The whole build -/

/-- However a build ends, it ends coherently. -/
theorem ensures_wholeBuild (lake : Workspace) (target : String) (options : BuildOptions)
    (hout : outside → lake.relative? target = none) (hp : p.Between Phase.codegen.index) :
    Ensures (wholeBuild lake target options)
      (fun _ => Ended (options.onLake lake).continueOnFailure outside .completed)
      (fun e => Ended (options.onLake lake).continueOnFailure outside e.stage) [] p := by
  have hstart : Clear (options.onLake lake).continueOnFailure 0 (calls []) := clear_nil _ 0
  unfold wholeBuild
  simp only [ensures_bind, ensures_modify, ensures_checkpoint]
  have hbegin : Progress.Between Phase.codegen.index { p with lake := some (p.lake.getD lake) } :=
    ⟨⟨hp.through.ended, hp.through.waiting⟩, hp.active, hp.idle⟩
  refine ⟨?_, (ensures_call _).mpr fun answer => ?_⟩
  · exact ended_of_between hbegin (hstart.proper fun _ => Nat.zero_le 3) rfl rfl rfl
  · cases answer with
    | error e =>
      simp only [ensures_abort_none]
      refine ended_of_between hbegin ?_ rfl rfl rfl
      simpa using hstart.proper_concat rfl fun _ => by omega
    | ok _ =>
      have hprepared : Clear (options.onLake lake).continueOnFailure 1
          (calls ([] ++ [looked false] ++ [called (.prepare lake) (.ok ())])) := by
        simpa using hstart.concat rfl rfl (Or.inl (Nat.lt_succ_self 0))
      refine (ensures_generate lake hprepared hbegin).bind ?_
      rintro _ run p ⟨hclear, hp⟩
      refine (ensures_validate lake options hclear hp).bind ?_
      rintro _ run p ⟨hclear, hp⟩
      refine (ensures_buildTarget lake target options hout hclear hp).bind ?_
      rintro place run p ⟨hin, hclear, hp⟩
      split
      · refine (ensures_publishTarget lake place hin (hclear.mono (Nat.le_succ 5)) hp).bind ?_
        rintro _ run p ⟨hclear, hp⟩
        have hproper := hclear.proper fun ho => absurd ho hin
        exact ensures_finish.mpr fun time => ended_of_between hp hproper rfl rfl rfl
      · have hproper := hclear.proper fun ho => absurd ho hin
        exact ensures_finish.mpr fun time => ended_of_between hp hproper rfl rfl rfl

end Pipeline
end ProtoBuild
