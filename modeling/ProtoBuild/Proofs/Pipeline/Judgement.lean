import ProtoBuild.Proofs.Pipeline.Tally

/-!
# What a completed build leaves of its units and phases

A build that returns a result has attempted all of its units, and each of them was built or has
failed.  The phases before the build phase have not failed, the build phase has failed only if
all units have, and a publish phase that has failed has an error: this is `Progress.Completed`.
It is followed through the parts of a build from the values that they give (`Work.Yields`); with
what they leave when they end with an error nothing is to be shown.

## Why the units have to be different

A unit that is named twice is attempted twice, and what becomes of it the second time is not
recorded, since a unit that has failed or was built cannot begin again.  Then the number of
failures is not that of the failed units, and a build phase may fail although not all units have.
Under the hypothesis that no search has found a unit twice (`Distinct`) this cannot happen.  A run
only grows, so if a search did find one, nothing has to be shown of what follows (`Made.given`).
-/

namespace ProtoBuild

/-! ## Units that are published -/

namespace UnitRecord

variable {u : UnitRecord}

/-- Publishing an artifact moves a unit only if it was built. -/
theorem status_published (lake : Workspace) (unit label : String) (now : UInt64)
    (u : UnitRecord) :
    (Pipeline.publishedUnit lake unit label now u).status =
      if u.status = .built then .published else u.status := by
  unfold Pipeline.publishedUnit
  extract_lets v
  have hv : v.status = u.status := by
    unfold v
    split <;> rfl
  rw [hv]
  split
  · rename_i hbuilt
    rw [status_move, hv, hbuilt]
    rfl
  · exact hv

theorem failed_published_iff (lake : Workspace) (unit label : String) (now : UInt64)
    (u : UnitRecord) :
    (Pipeline.publishedUnit lake unit label now u).status = .failed ↔ u.status = .failed := by
  rw [status_published]
  split
  · rename_i hbuilt
    simp [hbuilt]
  · exact Iff.rfl

theorem error_move (u : UnitRecord) (next : UnitStatus) (now : UInt64) :
    (u.move next now).1.error = u.error := by
  unfold move
  split <;> rfl

theorem error_published (lake : Workspace) (unit label : String) (now : UInt64)
    (u : UnitRecord) : (Pipeline.publishedUnit lake unit label now u).error = u.error := by
  unfold Pipeline.publishedUnit
  extract_lets v
  have hv : v.error = u.error := by
    unfold v
    split <;> rfl
  split
  · rw [error_move, hv]
  · exact hv

theorem Judged.published (h : u.Judged) (lake : Workspace) (unit label : String) (now : UInt64) :
    (Pipeline.publishedUnit lake unit label now u).Judged := by
  rcases h with hsuccess | ⟨hfailed, herror⟩
  · refine Or.inl ?_
    rw [status_published]
    split
    · rfl
    · exact hsuccess
  · exact Or.inr ⟨(failed_published_iff lake unit label now u).mpr hfailed, by
      rw [error_published]
      exact herror⟩

end UnitRecord

/-! ## From the end of the build phase on -/

namespace Progress

variable {p : Progress} {unit : String} {g : UnitRecord → UnitRecord}
  {f : PhaseRecord → PhaseRecord} {units : List String} {total failed : Nat}

/-- The build phase is over: each unit was built or has failed, no earlier phase has failed, and
the build phase has failed only if there were units and all of them have. -/
structure Built (p : Progress) : Prop where
  judged : ∀ key u, p.units.get? key = some u → u.Judged
  early : ∀ q : Phase, q.index < Phase.build.index → (p.phases.get q).state ≠ .failed
  build_failed : (p.phases.get .build).state = .failed →
    0 < p.statuses.length ∧ p.statuses.count .failed = p.statuses.length

/-- The build phase is over, and the publish phase has not failed yet. -/
structure Publishable (p : Progress) : Prop extends Built p where
  unfailed : (p.phases.get .publish).state ≠ .failed

/-- All phases are over.  If the publish phase has failed it says why. -/
structure Completed (p : Progress) : Prop extends Built p where
  publish_failed : (p.phases.get .publish).state = .failed →
    (p.phases.get .publish).error.isSome = true

theorem Publishable.completed (h : p.Publishable) : p.Completed where
  toBuilt := h.toBuilt
  publish_failed hfailed := absurd hfailed h.unfailed

/-- What is done in the publish phase is no matter of the phases before. -/
theorem Built.modifyPublish (h : p.Built) (f : PhaseRecord → PhaseRecord) :
    (p.modifyPhase .publish f).Built where
  judged := h.judged
  early q hq := by
    have hne : q ≠ .publish := fun heq => absurd hq (by rw [heq]; decide)
    rw [get_modifyPhase_of_ne hne]
    exact h.early q hq
  build_failed hfailed := by
    rw [get_modifyPhase_of_ne (by decide)] at hfailed
    exact h.build_failed hfailed

/-- A unit is changed that stays judged, and failed if it was. -/
theorem Built.modifyUnit (h : p.Built) (unit : String)
    (hjudged : ∀ u : UnitRecord, u.Judged → (g u).Judged)
    (hg : ∀ u : UnitRecord, (g u).status = .failed ↔ u.status = .failed) :
    (p.modifyUnit unit g).Built where
  judged key u hu := by
    obtain ⟨v, hv, rfl⟩ := get?_modifyUnit hu
    split
    · exact hjudged v (h.judged key v hv)
    · exact h.judged key v hv
  early := h.early
  build_failed hfailed := by
    have hsize : (p.modifyUnit unit g).statuses.length = p.statuses.length := by
      rw [length_statuses, length_statuses]
      exact StringMap.size_update ..
    rw [hsize, count_failed_of_iff hg]
    exact h.build_failed hfailed

theorem Publishable.modifyPublish (h : p.Publishable)
    (hf : ∀ r : PhaseRecord, r.Spares (f r)) : (p.modifyPhase .publish f).Publishable where
  toBuilt := h.toBuilt.modifyPublish f
  unfailed := hf _ h.unfailed

theorem Publishable.modifyUnit (h : p.Publishable) (unit : String)
    (hjudged : ∀ u : UnitRecord, u.Judged → (g u).Judged)
    (hg : ∀ u : UnitRecord, (g u).status = .failed ↔ u.status = .failed) :
    (p.modifyUnit unit g).Publishable where
  toBuilt := h.toBuilt.modifyUnit unit hjudged hg
  unfailed := h.unfailed

theorem Built.advance (h : p.Built) (stage : Stage) : (p.advance stage).1.Built where
  judged key u hu := by
    rw [units_advance] at hu
    exact h.judged key u hu
  early q hq := by
    rw [phases_advance]
    exact h.early q hq
  build_failed hfailed := by
    rw [phases_advance] at hfailed
    rw [statuses, units_advance]
    exact h.build_failed hfailed

theorem Completed.advance (h : p.Completed) (stage : Stage) : (p.advance stage).1.Completed where
  toBuilt := h.toBuilt.advance stage
  publish_failed hfailed := by
    rw [phases_advance] at hfailed ⊢
    exact h.publish_failed hfailed

theorem Publishable.enter (h : p.Publishable) (time : UInt64) :
    (Pipeline.enteredInto .publish time p).Publishable := by
  have hadvanced : (p.advance .publishing).1.Publishable :=
    { toBuilt := h.toBuilt.advance .publishing
      unfailed := by
        rw [phases_advance]
        exact h.unfailed }
  exact hadvanced.modifyPublish fun r => r.spares_start time

/-- Without units there is nothing to be judged. -/
theorem Fresh.publishable (h : p.Fresh) : p.Publishable where
  judged key u hu := by
    rw [h.units_eq] at hu
    exact nomatch hu
  early q _ := h.unfailed q
  build_failed hfailed := absurd hfailed (h.unfailed .build)
  unfailed := h.unfailed .publish

/-- All units are judged, and the build phase is ended: it may fail if all of them have. -/
theorem Tally.publishable (h : p.Tally [] total failed)
    (hf : ∀ r : PhaseRecord, r.state ≠ .failed → (f r).state = .failed →
      0 < total ∧ failed = total) : (p.modifyPhase .build f).Publishable where
  judged key u hu := h.judged key u List.not_mem_nil hu
  early q hq := by
    have hne : q ≠ .build := fun heq => absurd hq (by rw [heq]; exact Nat.lt_irrefl _)
    rw [get_modifyPhase_of_ne hne]
    exact h.unfailed q
  build_failed hfailed := by
    have hlength : p.statuses.length = total := (length_statuses p).trans h.size_eq
    have hcount : p.statuses.count .failed = failed := h.failed_eq
    show 0 < p.statuses.length ∧ p.statuses.count .failed = p.statuses.length
    rw [hlength, hcount]
    exact hf _ (h.unfailed .build) hfailed
  unfailed := by
    rw [get_modifyPhase_of_ne (by decide)]
    exact h.unfailed .publish

end Progress

namespace Pipeline

open Work Progress

/-! ## Searches that find no unit twice -/

variable {α : Type} {run more : Run} {p : Progress} {k : Nat}

/-- No search of a run has found a unit twice. -/
def Distinct (run : Run) : Prop :=
  ∀ root search units, (⟨.discover root search, .ok units⟩ : Answered) ∈ calls run → units.Nodup

theorem Distinct.of_append (h : Distinct (run ++ more)) : Distinct run := by
  intro root search units hcall
  refine h root search units ?_
  rw [calls_append]
  exact List.mem_append_left _ hcall

/-- If a unit was found twice this stays so. -/
theorem keeps_not_distinct : Keeps AnyChange (Request.From k) fun run _ => ¬ Distinct run where
  modify _ _ h := h
  request _ _ _ h := fun hdistinct => h hdistinct.of_append
  push h := fun hdistinct => h hdistinct.of_append

/-- No search finds a unit twice if none is answered so, whatever was asked before. -/
theorem distinct_replayAfter {α : Type} (answer : Run → (q : Request) → q.Answer)
    (h : ∀ past root search units,
      answer past (.call (.discover root search)) = .ok units → units.Nodup)
    (past : Run) (program : Program interface α) :
    Distinct (program.replayAfter answer past).1 := by
  induction program generalizing past with
  | done a => exact fun _ _ _ hcall => absurd hcall List.not_mem_nil
  | ask q next ih =>
    intro root search units hcall
    have hcons : (Program.replayAfter answer past (.ask q next)).1 =
        ⟨q, answer past q⟩ ::
          ((next (answer past q)).replayAfter answer (past ++ [⟨q, answer past q⟩])).1 := rfl
    rw [hcons, calls, List.filterMap_cons] at hcall
    split at hcall
    · exact ih (answer past q) _ root search units hcall
    · rename_i x hx
      rcases List.mem_cons.mp hcall with rfl | hrest
      · cases q with
        | call c =>
          obtain ⟨rfl, hanswer⟩ := Sigma.mk.inj (Option.some.inj hx)
          exact h past root search units (eq_of_heq hanswer)
        | _ => exact nomatch hx
      · exact ih (answer past q) _ root search units hrest

theorem distinct_replay {α : Type} (answer : (q : Request) → q.Answer)
    (h : ∀ root search units, answer (.call (.discover root search)) = .ok units → units.Nodup)
    (program : Program interface α) : Distinct (program.replay answer).1 := by
  rw [program.replay_eq_replayAfter answer []]
  exact distinct_replayAfter (fun _ => answer) (fun _ => h) [] program

/-- A part of a build that ends with a value leaves a progress of which a condition holds. -/
abbrev Work.Yields (work : Work α) (Q : α → Progress → Prop) : Assertion :=
  Ensures work (fun a _ p => Q a p) fun _ _ _ => True

/-- What a part yields is needed only if no unit was found twice. -/
theorem Work.Made.given {work : Work α} {A : Progress → Prop} {Q : α → Progress → Prop}
    (hmade : Made AnyChange (Request.From k) work)
    (hwork : ∀ run p, A p → Yields work Q run p) (h : Distinct run → A p) :
    Ensures work (fun a run p => Distinct run → Q a p) (fun _ _ _ => True) run p := by
  by_cases hdistinct : Distinct run
  · exact (hwork run p (h hdistinct)).mono (fun _ _ _ hQ _ => hQ) fun _ _ _ _ => trivial
  · exact (hmade.ensures keeps_not_distinct hdistinct).mono
      (fun _ _ _ hnot hlater => absurd hlater hnot) fun _ _ _ _ => trivial

theorem nodup_deepestFirst {units : List String} (h : units.Nodup) :
    (Resolution.deepestFirst units).Nodup :=
  (List.mergeSort_perm units Resolution.precedes).nodup_iff.mpr h

/-! ## Before the build phase -/

theorem yields_generate (lake : Workspace) (h : p.Fresh) :
    Yields (generate lake) (fun _ => Fresh) run p := by
  simp only [generate, ensures_bind, ensures_enter]
  refine ⟨trivial, fun time => (ensures_call _).mpr ?_⟩
  rintro ⟨notes, answer⟩
  simp only [ensures_writeNotes]
  cases answer with
  | error e =>
    simp only [ensures_abort_some]
    exact fun _ => trivial
  | ok _ =>
    simp only [ensures_bind, ensures_now, ensures_modifyPhase, ensures_leave]
    intro time'
    have hnoted := (h.enter .codegen time).modifyPhase .codegen
      (PhaseRecord.spares_foldl (fun r note => r.spares_write note) notes)
    exact hnoted.modifyPhase .codegen fun r => r.spares_succeed time'

theorem yields_recordReport (report : CheckReport) (h : p.Fresh) :
    Yields (recordReport report) (fun _ => Fresh) run p := by
  simp only [recordReport, ensures_bind, ensures_now, ensures_modifyPhase]
  intro time
  have hlogged := h.modifyPhase .validation
    (PhaseRecord.spares_foldl (fun r (f : Finding) => r.spares_addLog f.text) report.findings)
  cases report.skipped with
  | some reason =>
    simp only [ensures_modifyPhase]
    exact hlogged.modifyPhase .validation fun r => r.spares_skip time reason
  | none =>
    dsimp only
    split
    · simp only [ensures_modifyPhase]
      exact hlogged.modifyPhase .validation fun r => r.spares_succeed time
    · simp only [ensures_abort_some]
      exact fun _ => trivial

theorem yields_validate (lake : Workspace) (options : BuildOptions) (h : p.Fresh) :
    Yields (validate lake options) (fun _ => Fresh) run p := by
  simp only [validate, ensures_bind, ensures_enter]
  refine ⟨trivial, fun time => ?_⟩
  have hentered := h.enter .validation time
  split
  · simp only [ensures_bind, ensures_now, ensures_modifyPhase, ensures_leave]
    exact fun time' => hentered.modifyPhase .validation fun r => r.spares_skip time' _
  · simp only [ensures_bind]
    refine (ensures_call _).mpr ?_
    rintro ⟨notes, answer⟩
    simp only [ensures_writeNotes]
    cases answer with
    | error e =>
      simp only [ensures_bind, ensures_abort_some]
      exact fun _ => trivial
    | ok report =>
      have hnoted := hentered.modifyPhase .validation
        (PhaseRecord.spares_foldl (fun r note => r.spares_write note) notes)
      refine (yields_recordReport report hnoted).bind fun _ run p h => ?_
      rw [ensures_leave]
      exact h

/-! ## The build phase -/

theorem yields_cleanCache (lake : Workspace) (h : p.Fresh) :
    Yields (cleanCache lake) (fun _ => Fresh) run p := by
  simp only [cleanCache, ensures_bind, ensures_modifyPhase, ensures_push]
  refine (ensures_call _).mpr fun answer => ?_
  cases answer with
  | error e =>
    simp only [ensures_orThrow_error]
  | ok _ =>
    simp only [ensures_orThrow_ok]
    have hnamed := h.modifyPhase .build fun r => r.spares_setSubPhase "Cleaning build cache"
    exact hnamed.modifyPhase .build fun r => r.spares_addLog "Build cache cleaned"

theorem yields_resolveUnits (lake : Workspace) (mode : ResolutionMode) (target : String)
    (h : p.Fresh) : Yields (resolveUnits lake mode target) (fun _ => Fresh) run p := by
  cases mode with
  | direct => exact h
  | isolated =>
    simp only [resolveUnits, ensures_bind, ensures_modifyPhase]
    refine (ensures_call _).mpr fun answer => ?_
    have hnamed := h.modifyPhase .build fun r =>
      r.spares_setSubPhase "Discovering bundle targets"
    cases answer with
    | error e => simp only [ensures_orThrow_error]
    | ok units =>
      simp only [ensures_orThrow_ok, ensures_pure]
      exact hnamed.modifyPhase .build fun r => r.spares_addLog _

/-- The units of a target are different if those that were found are. -/
theorem ensures_resolveUnits_distinct (lake : Workspace) (mode : ResolutionMode)
    (target : String) :
    Ensures (resolveUnits lake mode target) (fun units run _ => Distinct run → units.Nodup)
      (fun _ _ _ => True) run p := by
  cases mode with
  | direct => exact fun _ => by simp
  | isolated =>
    simp only [resolveUnits, ensures_bind, ensures_modifyPhase]
    refine (ensures_call _).mpr fun answer => ?_
    cases answer with
    | error e => simp only [ensures_orThrow_error]
    | ok units =>
      simp only [ensures_orThrow_ok, ensures_pure]
      intro hdistinct
      refine nodup_deepestFirst (hdistinct lake.root target units ?_)
      rw [calls_append]
      exact List.mem_append_right _ (List.mem_singleton_self _)

variable {unit : String} {rest : List String} {total failed : Nat}

theorem yields_failUnit (unit reason : String) (time : UInt64)
    (h : p.Trying unit rest total failed) :
    Yields (failUnit unit reason time)
      (fun answer p => answer.isOk = false ∧ p.Tally rest total (failed + 1)) run p := by
  simp only [failUnit, ensures_bind, ensures_modifyUnit, ensures_pure]
  exact ⟨rfl, h.fail reason time⟩

/-- A unit is attempted: it adds to the failures if its attempt is one. -/
theorem yields_buildUnit (lake : Workspace) (args : List String) (hunit : unit ∉ rest)
    (h : p.Tally (unit :: rest) total failed) :
    Yields (buildUnit lake args unit)
      (fun answer p => p.Tally rest total (if answer.isOk then failed else failed + 1)) run p := by
  simp only [buildUnit, ensures_bind, ensures_modifyPhase, ensures_now, ensures_modifyUnit]
  intro started
  refine (ensures_call _).mpr fun answer ended => ?_
  have hnamed := h.modifyPhase .build (f := fun r =>
    (r.setSubPhase ("Building " ++ unit)).addLog ("Building: " ++ unit)) fun r hr =>
      PhaseRecord.spares_addLog _ _ (r.spares_setSubPhase _ hr)
  have htrying := hnamed.attempt hunit started
  -- a unit that has failed counts as one failure more
  have hfail : ∀ {p : Progress} {run : Run} (reason : String), p.Trying unit rest total failed →
      Yields (failUnit unit reason ended)
        (fun answer p => p.Tally rest total (if answer.isOk then failed else failed + 1)) run p :=
    fun reason htrying => (yields_failUnit unit reason ended htrying).mono
      (fun answer _ p hanswer => by simpa [hanswer.1] using hanswer.2) fun _ _ _ _ => trivial
  cases answer with
  | error e =>
    dsimp only
    split
    · simp only [ensures_bind, ensures_modifyUnit]
      exact hfail _ (htrying.addLog _)
    · exact hfail _ htrying
  | ok output =>
    simp only [ensures_bind, ensures_modifyUnit]
    split
    · have hbuilt := (htrying.addLog (output.tail keptLines)).built ended
      simp only [ensures_bind, ensures_modifyUnit]
      split
      · simp only [ensures_bind, ensures_modifyPhase, ensures_pure]
        exact (hbuilt.modifyPhase .build fun r => r.spares_addLog _).modifyPhase .build fun r =>
          r.spares_addLog _
      · simp only [ensures_bind, ensures_modifyPhase, ensures_pure]
        exact hbuilt.modifyPhase .build fun r => r.spares_addLog _
    · exact hfail _ (htrying.addLog _)

/-- **The failures are counted.**  When all units were attempted the number of failures is that of
the failed units. -/
theorem yields_buildUnits (lake : Workspace) (args : List String) (goOn : Bool)
    {units : List String} (hunits : units.Nodup) (h : p.Tally units total failed) :
    Yields (buildUnits lake args goOn units) (fun n p => p.Tally [] total (failed + n)) run p := by
  induction units generalizing run p failed with
  | nil => exact h
  | cons unit rest ih =>
    obtain ⟨hunit, hrest⟩ := List.nodup_cons.mp hunits
    simp only [buildUnits, ensures_bind, ensures_isCancelled]
    intro stopped
    split
    · refine (ensures_trivial (skipUnits (unit :: rest))).bind fun _ run p _ => ?_
      simp only [ensures_bind, ensures_push, ensures_throw]
    · refine (yields_buildUnit lake args hunit h).bind fun answer run p hanswer => ?_
      cases answer with
      | ok _ =>
        simp only [ensures_bind, ensures_push]
        exact ih hrest hanswer
      | error reason =>
        dsimp only
        split
        · simp only [ensures_bind, ensures_modifyPhase, ensures_push, ensures_pure]
          have hlogged := hanswer.modifyPhase .build fun r => r.spares_addLog
            ("Failed to build " ++ unit ++ ": " ++ reason ++ " (continuing)")
          refine (ih hrest hlogged).mono (fun n _ p hn => ?_) fun _ _ _ _ => trivial
          have hnext : failed + (n + 1) = failed + 1 + n := by omega
          rw [hnext]
          exact hn
        · simp only [ensures_bind, ensures_now, ensures_modifyPhase, ensures_push, ensures_throw]
          exact fun _ => trivial

/-- The build phase fails if the number of failures is that of the units. -/
theorem yields_endBuild (htotal : 0 < total) (h : p.Tally [] total failed) :
    Yields (endBuild total failed) (fun _ => Publishable) run p := by
  simp only [endBuild, ensures_bind, ensures_now, ensures_modifyPhase]
  intro time
  refine h.publishable fun r hr hfailed => ?_
  split at hfailed
  · rename_i hall
    exact ⟨htotal, hall⟩
  · exact absurd hfailed (PhaseRecord.spares_succeed _ time (r.spares_addLog _ hr))

/-- **The build phase.**  It ends as one whose units are judged, if no unit was found twice. -/
theorem ensures_build_judged (lake : Workspace) (target : String) (options : RunOptions)
    (h : p.Fresh) :
    Ensures (build lake target options) (fun _ run p => Distinct run → p.Publishable)
      (fun _ _ _ => True) run p := by
  unfold build
  extract_lets buildAll
  have hbuildAll : ∀ (run : Run) (p : Progress), p.Fresh →
      Ensures (buildAll ()) (fun _ run p => Distinct run → p.Publishable) (fun _ _ _ => True)
        run p := by
    intro run p h
    rw [ensures_bind]
    refine ((yields_resolveUnits lake options.mode target h).and
      (ensures_resolveUnits_distinct lake options.mode target)).mono ?_ fun _ _ _ _ => trivial
    rintro units run p ⟨h, hunits⟩
    split
    · simp only [ensures_bind, ensures_now, ensures_modifyPhase]
      exact fun time _ => (h.modifyPhase .build fun r => r.spares_skip time _).publishable
    · rename_i hsome
      have hlength : 0 < units.length :=
        List.length_pos_iff.mpr fun hnil => hsome (by rw [hnil]; rfl)
      simp only [ensures_bind, ensures_get, ensures_modify, ensures_push]
      rw [← ensures_bind]
      refine Made.given (k := 5) (A := fun p => units.Nodup ∧ p.Tally units units.length 0)
        (Q := fun _ => Publishable)
        (.bind (made_buildUnits (Nat.le_refl 5) _ _ _ _).free fun _ => (made_endBuild _ _).free)
        ?_ fun hdistinct => ?_
      · rintro run p ⟨hnodup, htally⟩
        refine (yields_buildUnits lake _ _ hnodup htally).bind fun n run p hn => ?_
        have hcounted : p.Tally [] units.length n := Nat.zero_add n ▸ hn
        exact yields_endBuild hlength hcounted
      · have hnodup : units.Nodup := hunits hdistinct.of_append
        exact ⟨hnodup, tally_insertAll h hnodup _⟩
  split
  · exact (yields_cleanCache lake h).bind fun _ run p h => hbuildAll run p h
  · exact hbuildAll run p h

/-- The target is built. -/
theorem ensures_buildTarget_judged (lake : Workspace) (target : String) (options : BuildOptions)
    (h : p.Fresh) :
    Ensures (buildTarget lake target options) (fun _ run p => Distinct run → p.Publishable)
      (fun _ _ _ => True) run p := by
  simp only [buildTarget, ensures_bind, ensures_enter]
  refine ⟨trivial, fun time => ?_⟩
  cases lake.relative? target with
  | none =>
    simp only [ensures_abort_some]
    exact fun _ => trivial
  | some place =>
    simp only [ensures_bind, ensures_tryCatch]
    refine (ensures_build_judged lake place (options.onLake lake) (h.enter .build time)).mono
      (fun _ run p h => ?_) fun e run p _ => ?_
    · simp only [ensures_leave, ensures_pure]
      exact fun hdistinct => h hdistinct.of_append
    · split
      · simp only [ensures_stop]
      · simp only [ensures_abort_some]
        exact fun _ => trivial

/-! ## The publish phase -/

theorem yields_publishOne (lake : Workspace) (label unit : String) (h : p.Publishable) :
    Yields (publishOne lake label unit) (fun _ => Publishable) run p := by
  simp only [publishOne, ensures_bind, ensures_modifyPhase]
  refine (ensures_call _).mpr fun answer => ?_
  have hnamed := h.modifyPublish fun r => r.spares_setSubPhase ("Publishing " ++ label)
  cases answer with
  | ok output =>
    simp only [ensures_bind, ensures_now, ensures_modifyUnit, ensures_modifyPhase, ensures_push,
      ensures_pure]
    intro time
    have hpublished := hnamed.modifyUnit unit (fun u hu => hu.published lake unit label time)
      (UnitRecord.failed_published_iff lake unit label time)
    exact hpublished.modifyPublish fun r => r.spares_addLog _
  | error e =>
    simp only [ensures_bind, ensures_modifyUnit, ensures_modifyPhase, ensures_push, ensures_pure]
    have hlogged := hnamed.modifyPublish fun r =>
      r.spares_addLog ("Failed to publish " ++ label ++ ": " ++ e.message)
    exact hlogged.modifyUnit unit (g := (·.addLog _)) (fun u hu => hu) fun u => Iff.rfl

theorem yields_publishAll (lake : Workspace) (plan : List (String × String))
    (h : p.Publishable) : Yields (publishAll lake plan) (fun _ => Publishable) run p := by
  induction plan generalizing run p with
  | nil => exact h
  | cons step rest ih =>
    refine (yields_publishOne lake step.1 step.2 h).bind fun ok run p h => ?_
    refine (ih h).bind fun published run p h => ?_
    exact h

theorem yields_publish (lake : Workspace) (target : String) (h : p.Publishable) :
    Yields (publish lake target) (fun _ => Completed) run p := by
  simp only [publish, ensures_bind, ensures_modifyPhase]
  refine (ensures_call _).mpr fun answer => ?_
  have hnamed := h.modifyPublish fun r => r.spares_setSubPhase "Discovering publish targets"
  cases answer with
  | error e => simp only [ensures_orThrow_error]
  | ok labels =>
    simp only [ensures_orThrow_ok, builtUnits, ensures_bind, ensures_get, ensures_pure]
    split
    · simp only [ensures_bind, ensures_now, ensures_modifyPhase]
      exact fun time => (hnamed.modifyPublish fun r => r.spares_skip time _).completed
    · refine (yields_publishAll lake _ hnamed).bind fun published run p h => ?_
      simp only [ensures_bind, ensures_now, ensures_modifyPhase]
      intro time
      refine ⟨h.toBuilt.modifyPublish _, ?_⟩
      rw [get_modifyPhase_self]
      intro hfailed
      split at hfailed
      · rename_i hnone
        rw [if_pos hnone]
        exact PhaseRecord.error_of_fail h.unfailed time _ hfailed
      · exact absurd hfailed
          (PhaseRecord.spares_succeed _ time (PhaseRecord.spares_addLog _ _ h.unfailed))

theorem yields_publishTarget (lake : Workspace) (place : String) (h : p.Publishable) :
    Yields (publishTarget lake place) (fun _ => Completed) run p := by
  simp only [publishTarget, ensures_bind, ensures_enter, ensures_tryCatch]
  refine ⟨trivial, fun time => ?_⟩
  refine (yields_publish lake place (h.enter time)).mono (fun _ run p h => ?_) fun e run p _ => ?_
  · rw [ensures_leave]
    exact h
  · rw [ensures_abort_some]
    exact fun _ => trivial

/-! ## The whole build -/

/-- **What a completed build leaves.**  If no unit was found twice, a build that ends with a result
has judged its units and its phases, and the result is made of the progress of the end. -/
theorem ensures_completed (lake : Workspace) (target : String) (options : BuildOptions)
    (h : p.Fresh) :
    Ensures (wholeBuild lake target options)
      (fun result run p => Distinct run → p.Completed ∧ ∃ time, result = p.result time)
      (fun _ _ _ => True) [] p := by
  have hfinish : ∀ (run : Run) (p : Progress) (time : UInt64), (Distinct run → p.Completed) →
      Distinct (run ++ [told (.updated (p.advance .completed).1), timed time,
        told (.completed ((p.advance .completed).1.result time))]) →
      (p.advance .completed).1.Completed ∧
        ∃ time', (p.advance .completed).1.result time = (p.advance .completed).1.result time' :=
    fun run p time h hdistinct => ⟨(h hdistinct.of_append).advance .completed, time, rfl⟩
  unfold wholeBuild
  simp only [ensures_bind, ensures_modify, ensures_checkpoint]
  have hbegin : Fresh { p with lake := some (p.lake.getD lake) } := ⟨h.unfailed, h.units_eq⟩
  refine ⟨trivial, (ensures_call _).mpr fun answer => ?_⟩
  cases answer with
  | error e => simp only [ensures_abort_none]
  | ok _ =>
    refine (yields_generate lake hbegin).bind fun _ run p h => ?_
    refine (yields_validate lake options h).bind fun _ run p h => ?_
    refine (ensures_buildTarget_judged lake target options h).bind fun place run p h => ?_
    split
    · refine (Made.given (made_publishTarget (k := 6) (by omega) lake place).free
        (fun _ _ => yields_publishTarget lake place) h).bind fun _ run p h => ?_
      exact ensures_finish.mpr fun time => hfinish run p time h
    · exact ensures_finish.mpr fun time => hfinish run p time fun hdistinct =>
        (h hdistinct).completed

end Pipeline
end ProtoBuild
