import ProtoBuild.Proofs.Pipeline.Accounts
import ProtoBuild.Proofs.Pipeline.Parts

/-!
# The ways in which a build can end

Before the build phase a build ends only because it was asked to stop or because its last call
has failed, and nothing was built until then (`Halted`).  In the build phase and later it has
left a look behind it after which only the calls of these phases are made (`Past`), and if it was
asked to stop its units are accounted for (`BrokenOff`).  These are all the ways in which a build
can end (`ensures_wholeBuild_watched`), and in each of them its calls were guarded.

## Why the look is remembered

A look that has found nothing is the proof that nobody had asked until then.  The one before the
build phase tells two kinds of builds apart: those that have passed it were not asked in any of
the calls before, and for the others it is known why they did not come to it.
-/

namespace ProtoBuild
namespace Pipeline

open Work

variable {run more : Run} {p : Progress} {goOn : Bool}

/-! ## Ways to leave -/

/-- There was a look that has found nothing, and after it only the calls of the build phase and
later ones were made. -/
def Past (run : Run) : Prop :=
  ∃ before after, run = before ++ looked false :: after ∧ ∀ x ∈ calls after, 3 ≤ x.1.rank

theorem Past.append (h : Past run) (hmore : ∀ x ∈ calls more, 3 ≤ x.1.rank) :
    Past (run ++ more) := by
  obtain ⟨before, after, rfl, hafter⟩ := h
  refine ⟨before, after ++ more, by simp, fun x hx => ?_⟩
  rw [calls_append] at hx
  exact (List.mem_append.mp hx).elim (hafter x) (hmore x)

/-- The parts from the build phase on stay past this look. -/
theorem keeps_past : Keeps AnyChange (Request.From 3) fun run _ => Past run where
  modify _ _ h := h
  request q answer hq h := by
    refine h.append fun x hx => ?_
    cases q with
    | call c =>
      obtain rfl := List.mem_singleton.mp hx
      exact hq
    | now => exact absurd hx List.not_mem_nil
    | isCancelled => exact absurd hx List.not_mem_nil
    | tell e => exact absurd hx List.not_mem_nil
  push h := h.append fun x hx => absurd hx List.not_mem_nil

/-- A build that has ended before the build phase. -/
inductive Halted (goOn : Bool) : PipelineError → Assertion
  | stopped {run : Run} {p : Progress} (h : run.At (.look true)) (hp : Unbuilt run p) :
      Halted goOn .cancelled run p
  | failed {e : PipelineError} {run : Run} {p : Progress} {x : Answered} (h : Guarded run)
      (he : e ≠ .cancelled) (hlast : (calls run).getLast? = some x)
      (hx : x.fails goOn = true) : Halted goOn e run p

/-- What an error of the build phase leaves.  If it was a stop, the build has just seen that it
was asked to, and its units are accounted for. -/
structure BrokenOff (e : PipelineError) (run : Run) (p : Progress) : Prop where
  unbroken : run.Unbroken
  stopped : e.isCancelled = true → run.At (.look true) ∧ Accounted run p

/-- An error that is no stop. -/
theorem BrokenOff.of_failed {e : PipelineError} (h : run.Unbroken) (he : e.isCancelled = false) :
    BrokenOff e run p where
  unbroken := h
  stopped hcancelled := by
    rw [he] at hcancelled
    exact nomatch hcancelled

/-- How an error leaves the whole build. -/
structure Left (goOn : Bool) (e : PipelineError) (run : Run) (p : Progress) : Prop where
  guarded : Guarded run
  stopped : e = .cancelled → run.At (.look true) ∧ Accounted run p
  past_or_halted : Past run ∨ Halted goOn e run p

theorem Left.of_stopped (h : run.At (.look true)) (hp : Accounted run p)
    (hor : Past run ∨ Halted goOn .cancelled run p) : Left goOn .cancelled run p :=
  ⟨h.guarded, fun _ => ⟨h, hp⟩, hor⟩

theorem Halted.left {e : PipelineError} (h : Halted goOn e run p) : Left goOn e run p := by
  cases h with
  | stopped h hp => exact .of_stopped h hp.accounted (Or.inr (.stopped h hp))
  | failed h he hlast hx =>
    exact ⟨h, fun heq => absurd heq he, Or.inr (.failed h he hlast hx)⟩

/-- A build that is past the look ends with an error in its phase. -/
theorem Left.abort {e : PipelineError} (h : run.Unbroken) (hpast : Past run)
    (he : e ≠ .cancelled) (phase : Phase) (time : UInt64) (p : Progress) :
    Left goOn e
      (run ++ [timed time, told (.phaseCompleted phase false (some e.message)),
        told (.updated (abortedIn phase time e p)), told (.failed e.message)])
      (abortedIn phase time e p) :=
  ⟨h.abort phase e time _, fun heq => absurd heq he, Or.inl (hpast.append (by simp))⟩

/-- A call has failed, and the build ends in its phase. -/
theorem Halted.abort {e : PipelineError} (x : Answered) (h : run.Unbroken)
    (hlast : (calls run).getLast? = some x) (hx : x.fails goOn = true) (he : e ≠ .cancelled)
    (phase : Phase) (time : UInt64) (p : Progress) :
    Halted goOn e
      (run ++ [timed time, told (.phaseCompleted phase false (some e.message)),
        told (.updated (abortedIn phase time e p)), told (.failed e.message)])
      (abortedIn phase time e p) :=
  .failed (h.abort phase e time _) he (by simpa using hlast) hx

/-! ## Generation and checks -/

theorem ensures_generate_watched (lake : Workspace) (h : run.Unbroken) (hp : Unbuilt run p) :
    Ensures (generate lake) (fun _ run p => run.Unbroken ∧ Unbuilt run p) (Halted goOn) run p := by
  simp only [generate, ensures_bind, ensures_enter]
  refine ⟨.stopped (h.look true rfl) ((hp.advance _).silent rfl), fun time =>
    (ensures_call _).mpr ?_⟩
  rintro ⟨notes, answer⟩
  have hentered := h.enter .codegen time (enteredInto .codegen time p)
  have hcalled := (hentered.call (.codegen lake) (notes, answer)
    (rfl : lastMark? [] = none)).unbroken (by simp)
  simp only [ensures_writeNotes]
  cases answer with
  | error e =>
    rw [ensures_abort_some]
    exact fun time' => .abort ⟨.codegen lake, (notes, .error e)⟩ hcalled (by simp) rfl (by simp)
      _ _ _
  | ok _ =>
    simp only [ensures_bind, ensures_now, ensures_modifyPhase, ensures_leave]
    intro time'
    have hcodegen : Phase.codegen ≠ .build := Phase.noConfusion
    have hp' := ((hp.enter hcodegen time).modifyPhase hcodegen fun r =>
      notes.foldl Note.write r).modifyPhase hcodegen fun r => (r.succeed time').1
    exact ⟨(hcalled.silent rfl).silent rfl,
      (((hp'.silent rfl).silent rfl).silent rfl).silent rfl⟩

theorem ensures_recordReport_watched (report : CheckReport) {x : Answered} (h : run.Unbroken)
    (hp : Unbuilt run p) (hlast : (calls run).getLast? = some x)
    (hx : (report.skipped.isNone && ! report.success) = true → x.fails goOn = true) :
    Ensures (recordReport report) (fun _ run p => run.Unbroken ∧ Unbuilt run p) (Halted goOn)
      run p := by
  have hvalidation : Phase.validation ≠ .build := Phase.noConfusion
  simp only [recordReport, ensures_bind, ensures_now, ensures_modifyPhase]
  intro time
  have htimed : (run ++ [timed time]).Unbroken := h.silent rfl
  have hp' := (hp.silent (rfl : builds [timed time] = [])).modifyPhase hvalidation fun r =>
    report.findings.foldl (fun r f => r.addLog f.text) r
  cases hs : report.skipped with
  | some reason => exact ⟨htimed, hp'.modifyPhase hvalidation _⟩
  | none =>
    dsimp only
    split
    · exact ⟨htimed, hp'.modifyPhase hvalidation _⟩
    · rename_i hfailed
      rw [ensures_abort_some]
      exact fun time' => .abort x htimed (by simpa using hlast) (hx (by simp [hs, hfailed]))
        (by simp) _ _ _

theorem ensures_validate_watched (lake : Workspace) (options : BuildOptions) (h : run.Unbroken)
    (hp : Unbuilt run p) :
    Ensures (validate lake options) (fun _ run p => run.Unbroken ∧ Unbuilt run p) (Halted goOn)
      run p := by
  have hvalidation : Phase.validation ≠ .build := Phase.noConfusion
  simp only [validate, ensures_bind, ensures_enter]
  refine ⟨.stopped (h.look true rfl) ((hp.advance _).silent rfl), fun time => ?_⟩
  have hentered := h.enter .validation time (enteredInto .validation time p)
  have hp' := (hp.enter hvalidation time).silent (rfl : builds [looked false, timed time,
    told (.updated (enteredInto .validation time p)), told (.phaseStarted .validation)] = [])
  split
  · simp only [ensures_bind, ensures_now, ensures_modifyPhase, ensures_leave]
    intro time'
    exact ⟨((hentered.unbroken (by simp)).silent rfl).silent rfl,
      ((hp'.silent rfl).modifyPhase hvalidation _).silent rfl⟩
  · simp only [ensures_bind]
    refine (ensures_call _).mpr ?_
    rintro ⟨notes, answer⟩
    have hcalled := (hentered.call (.validate lake) (notes, answer)
      (rfl : lastMark? [] = none)).unbroken (by simp)
    simp only [ensures_writeNotes]
    cases answer with
    | error e =>
      simp only [ensures_bind, ensures_abort_some]
      exact fun time' => .abort ⟨.validate lake, (notes, .error e)⟩ hcalled (by simp) rfl (by simp)
        _ _ _
    | ok report =>
      refine (ensures_recordReport_watched (x := ⟨.validate lake, (notes, .ok report)⟩) report
        hcalled ((hp'.silent rfl).modifyPhase hvalidation _) (by simp) id).bind ?_
      rintro _ run p ⟨h, hp⟩
      rw [ensures_leave]
      exact ⟨h.silent rfl, hp.silent rfl⟩

/-! ## The build phase -/

theorem ensures_cleanCache_watched (lake : Workspace) (h : run.At (.look false))
    (hp : Unattempted run p) :
    Ensures (cleanCache lake)
      (fun _ run p => run.At (.call (.clean lake.root)) ∧ Unattempted run p) BrokenOff run p := by
  simp only [cleanCache, ensures_bind, ensures_modifyPhase, ensures_push]
  refine (ensures_call _).mpr fun answer => ?_
  have hcalled := Run.At.call (h.silent (rfl : lastMark? [told (.updated (p.modifyPhase .build
    (·.setSubPhase "Cleaning build cache")))] = none)) (.clean lake.root) answer
      (rfl : lastMark? [] = none)
  cases answer with
  | error e => exact .of_failed (hcalled.unbroken (by simp)) rfl
  | ok _ => exact ⟨hcalled, (((hp.modifyPhase _ _).silent rfl).silent rfl).modifyPhase _ _⟩

/-- Units are searched for after a look that has found nothing or once the cache is cleared. -/
theorem ensures_resolveUnits_watched (lake : Workspace) (mode : ResolutionMode) (target : String)
    (h : run.At (.look false) ∨ run.At (.call (.clean lake.root))) (hp : Unattempted run p) :
    Ensures (resolveUnits lake mode target) (fun _ run p => run.Unbroken ∧ Unattempted run p)
      BrokenOff run p := by
  cases mode with
  | direct => exact ⟨h.elim (·.unbroken (by simp)) (·.unbroken (by simp)), hp⟩
  | isolated =>
    simp only [resolveUnits, ensures_bind, ensures_modifyPhase]
    refine (ensures_call _).mpr fun answer => ?_
    have hcalled : Run.At (.call (.discover lake.root target))
        (run ++ [called (.discover lake.root target) answer]) :=
      h.elim (·.call _ answer rfl) (·.next answer (Or.inl ⟨rfl, rfl⟩) rfl)
    cases answer with
    | error e => exact .of_failed (hcalled.unbroken (by simp)) rfl
    | ok units =>
      exact ⟨hcalled.unbroken (by simp), ((hp.modifyPhase _ _).silent rfl).modifyPhase _ _⟩

/-- The units that were attempted, in a run and in the progress: those of the rest wait. -/
structure Attempting (attempted rest : List String) (run : Run) (p : Progress) : Prop where
  unbroken : run.Unbroken
  builds_eq : builds run = attempted.map Path.pattern
  covers : p.Covers attempted rest

section

variable {attempted rest : List String} {unit : String} {E : PipelineError → Assertion}

theorem Attempting.silent (h : Attempting attempted rest run p)
    (hmark : lastMark? more = none) (hbuilds : builds more = []) :
    Attempting attempted rest (run ++ more) p where
  unbroken := h.unbroken.silent hmark
  builds_eq := by rw [builds_append, hbuilds, List.append_nil, h.builds_eq]
  covers := h.covers

theorem Attempting.modifyPhase (h : Attempting attempted rest run p) (phase : Phase)
    (f : PhaseRecord → PhaseRecord) :
    Attempting attempted rest run (p.modifyPhase phase f) :=
  ⟨h.unbroken, h.builds_eq, h.covers⟩

theorem Attempting.modifyUnit (h : Attempting attempted rest run p) (hunit : unit ∈ attempted)
    (g : UnitRecord → UnitRecord) : Attempting attempted rest run (p.modifyUnit unit g) :=
  ⟨h.unbroken, h.builds_eq, h.covers.modifyUnit hunit g⟩

theorem ensures_failUnit_watched (h : Attempting attempted rest run p)
    (hunit : unit ∈ attempted) (reason : String) (time : UInt64) :
    Ensures (failUnit unit reason time) (fun _ => Attempting attempted rest) E run p := by
  simp only [failUnit, ensures_bind, ensures_modifyUnit, ensures_pure]
  exact h.modifyUnit hunit _

theorem ensures_buildUnit_watched (lake : Workspace) (args : List String) (unit : String)
    (h : run.At (.look false)) (hbuilds : builds run = attempted.map Path.pattern)
    (hcovers : p.Covers attempted (unit :: rest)) :
    Ensures (buildUnit lake args unit) (fun _ => Attempting (attempted ++ [unit]) rest) E
      run p := by
  have hunit : unit ∈ attempted ++ [unit] := List.mem_append_right _ (List.mem_singleton_self unit)
  simp only [buildUnit, ensures_bind, ensures_modifyPhase, ensures_now, ensures_modifyUnit]
  intro started
  refine (ensures_call _).mpr fun answer ended => ?_
  -- whatever the answer is, only the records of this unit and of the phase are written
  have hattempted : Attempting (attempted ++ [unit]) rest
      (run ++ [timed started] ++ [called (.build lake.root args (Path.pattern unit)) answer] ++
        [timed ended])
      ((p.modifyPhase .build fun r =>
        (r.setSubPhase ("Building " ++ unit)).addLog ("Building: " ++ unit)).modifyUnit unit
          fun u => (u.move .building started).1) :=
    { unbroken :=
        ((h.silent rfl).call (.build lake.root args (Path.pattern unit)) answer
          (rfl : lastMark? [] = none)).unbroken (by simp) |>.silent rfl
      builds_eq := by
        rw [builds_append, builds_append, builds_append, hbuilds, List.map_append]
        simp [builds, Call.pattern?]
      covers := hcovers.next.modifyUnit hunit _ }
  cases answer with
  | error e =>
    dsimp only
    split
    · simp only [ensures_bind, ensures_modifyUnit]
      exact ensures_failUnit_watched (hattempted.modifyUnit hunit _) hunit _ _
    · exact ensures_failUnit_watched hattempted hunit _ _
  | ok output =>
    simp only [ensures_bind, ensures_modifyUnit]
    split
    · have hlogged := hattempted.modifyUnit hunit fun u => u.addLog (output.tail keptLines)
      have hbuilt := hlogged.modifyUnit hunit fun u => (u.move .built ended).1
      simp only [ensures_bind, ensures_modifyUnit]
      split
      · simp only [ensures_bind, ensures_modifyPhase, ensures_pure]
        exact (hbuilt.modifyPhase _ _).modifyPhase _ _
      · simp only [ensures_bind, ensures_modifyPhase, ensures_pure]
        exact hbuilt.modifyPhase _ _
    · exact ensures_failUnit_watched (hattempted.modifyUnit hunit _) hunit _ _

/-- The units that were not attempted are all skipped. -/
theorem ensures_skipUnits_watched {units : List String} (h : run.At (.look true))
    (hbuilds : builds run = attempted.map Path.pattern) (hcovers : p.Covers attempted units) :
    Ensures (skipUnits units) (fun _ run p => run.At (.look true) ∧ Accounted run p) E run p := by
  simp only [skipUnits, ensures_bind, ensures_now]
  intro time
  have htimed : Run.At (.look true) (run ++ [timed time]) := h.silent rfl
  have hbuilds' : builds (run ++ [timed time]) = attempted.map Path.pattern := by
    simpa [builds] using hbuilds
  generalize ("Build cancelled, skipped " ++ toString units.length ++ " units") = reason
  induction units generalizing p with
  | nil => exact ⟨htimed, accounted_of_covers hcovers hbuilds'⟩
  | cons unit rest ih =>
    show Ensures (modifyUnit unit _ >>= fun _ => rest.forM fun unit => modifyUnit unit _) _ _ _ _
    rw [ensures_bind, ensures_modifyUnit]
    exact ih (hcovers.skip time)

theorem ensures_buildUnits_watched (lake : Workspace) (args : List String) (units : List String)
    (h : Attempting attempted units run p) :
    Ensures (buildUnits lake args goOn units) (fun _ run p => run.Unbroken ∧ Accounted run p)
      BrokenOff run p := by
  induction units generalizing attempted run p with
  | nil => exact ⟨h.unbroken, accounted_of_covers h.covers h.builds_eq⟩
  | cons unit rest ih =>
    simp only [buildUnits, ensures_bind, ensures_isCancelled]
    intro stopped
    have hlooked : Run.At (.look stopped) (run ++ [looked stopped]) := h.unbroken.look stopped rfl
    have hbuilds : builds (run ++ [looked stopped]) = attempted.map Path.pattern := by
      simpa [builds] using h.builds_eq
    cases stopped with
    | true =>
      refine (ensures_skipUnits_watched hlooked hbuilds h.covers).bind ?_
      rintro _ run p ⟨h, hp⟩
      simp only [ensures_bind, ensures_push, ensures_throw]
      have hpushed := h.silent (rfl : lastMark? [told (.updated p)] = none)
      exact ⟨hpushed.unbroken (by simp), fun _ => ⟨hpushed, hp.silent rfl⟩⟩
    | false =>
      refine (ensures_buildUnit_watched lake args unit hlooked hbuilds h.covers).bind ?_
      rintro answer run p h
      cases answer with
      | ok _ =>
        simp only [ensures_bind, ensures_push]
        exact ih (h.silent rfl rfl)
      | error reason =>
        dsimp only
        split
        · simp only [ensures_bind, ensures_modifyPhase, ensures_push, ensures_pure]
          exact ih ((h.modifyPhase _ _).silent rfl rfl)
        · simp only [ensures_bind, ensures_now, ensures_modifyPhase, ensures_push, ensures_throw]
          exact fun time => .of_failed ((h.unbroken.silent rfl).silent rfl) rfl

end

theorem ensures_build_watched (lake : Workspace) (target : String) (options : RunOptions)
    (h : run.At (.look false)) (hp : Unattempted run p) :
    Ensures (build lake target options) (fun _ run p => run.Unbroken ∧ Accounted run p)
      BrokenOff run p := by
  unfold build
  extract_lets buildAll
  have hbuildAll : ∀ (run : Run) (p : Progress),
      run.At (.look false) ∨ run.At (.call (.clean lake.root)) → Unattempted run p →
        Ensures (buildAll ()) (fun _ run p => run.Unbroken ∧ Accounted run p) BrokenOff
          run p := by
    intro run p h hp
    refine (ensures_resolveUnits_watched lake options.mode target h hp).bind ?_
    rintro units run p ⟨h, hp⟩
    split
    · simp only [ensures_bind, ensures_now, ensures_modifyPhase]
      exact fun time => ⟨h.silent rfl, (hp.silent rfl).modifyPhase _ _ |>.accounted⟩
    · simp only [ensures_bind, ensures_get, ensures_modify, ensures_push]
      have hadded : Attempting [] units run
          { p with
            units := units.foldl (fun m u => m.insert u
              { target := u, version := Version.onBranch lake.version p.branch }) p.units } :=
        ⟨h, hp.builds_eq, .of_insertAll hp.units_eq units _⟩
      refine (ensures_buildUnits_watched lake _ units (hadded.silent rfl rfl)).mono
        (fun failed run p h => ?_) fun _ _ _ he => he
      simp only [endBuild, ensures_bind, ensures_now, ensures_modifyPhase]
      exact fun time => ⟨h.1.silent rfl, h.2.silent rfl⟩
  split
  · exact (ensures_cleanCache_watched lake h hp).bind fun _ run p h =>
      hbuildAll run p (Or.inr h.1) h.2
  · exact hbuildAll run p (Or.inl h) hp

theorem ensures_buildTarget_watched (lake : Workspace) (target : String) (options : BuildOptions)
    (h : run.Unbroken) (hp : Unbuilt run p) :
    Ensures (buildTarget lake target options)
      (fun _ run p => run.Unbroken ∧ Accounted run p ∧ Past run) (Left goOn) run p := by
  simp only [buildTarget, ensures_bind, ensures_enter]
  refine ⟨Halted.left (.stopped (h.look true rfl) ((hp.advance _).silent rfl)), fun time => ?_⟩
  have hentered := h.enter .build time (enteredInto .build time p)
  have hpast : Past (run ++ [looked false, timed time, told (.updated (enteredInto .build time p)),
      told (.phaseStarted .build)]) :=
    ⟨run, _, rfl, by simp⟩
  cases lake.relative? target with
  | none =>
    rw [ensures_abort_some]
    exact fun time' => .abort (hentered.unbroken (by simp)) hpast (by simp) _ _ _
  | some place =>
    have hp' : Unattempted (run ++ [looked false, timed time,
        told (.updated (enteredInto .build time p)), told (.phaseStarted .build)])
        (enteredInto .build time p) :=
      ((hp.advance _).toUnattempted.modifyPhase .build _).silent rfl
    simp only [ensures_bind, ensures_tryCatch]
    refine ((ensures_build_watched lake place (options.onLake lake) hentered hp').and
      ((made_build (Nat.le_refl 3) lake place _).free.ensures keeps_past hpast)).mono ?_ ?_
    · rintro _ run p ⟨⟨h, hp⟩, hpast⟩
      simp only [ensures_leave, ensures_pure]
      exact ⟨h.silent rfl, hp.silent rfl, hpast.append (by simp)⟩
    · rintro e run p ⟨⟨hunbroken, hstopped⟩, hpast⟩
      split
      · rename_i hcancelled
        obtain ⟨h, hp⟩ := hstopped hcancelled
        rw [ensures_stop]
        exact .of_stopped (h.silent rfl) ((hp.advance _).silent rfl)
          (Or.inl (hpast.append (by simp)))
      · rename_i hfailed
        have he : e ≠ .cancelled := by
          rintro rfl
          exact hfailed rfl
        rw [ensures_abort_some]
        exact fun time' => .abort hunbroken hpast he _ _ _

/-! ## The publish phase -/

/-- The last mark is the query or a publish action. -/
def Run.Publishing (run : Run) : Prop := ∃ c : Call, run.At (.call c) ∧ 6 ≤ c.rank

theorem ensures_publishOne_watched {E : PipelineError → Assertion} (lake : Workspace)
    (label unit : String) (h : run.Publishing) :
    Ensures (publishOne lake label unit) (fun _ run _ => run.Publishing) E run p := by
  simp only [publishOne, ensures_bind, ensures_modifyPhase]
  refine (ensures_call _).mpr fun answer => ?_
  obtain ⟨c, hc, hrank⟩ := h
  have hcalled : Run.At (.call (.run lake.root label []))
      (run ++ [called (.run lake.root label []) answer]) :=
    hc.next answer (Or.inr ⟨hrank, rfl⟩) rfl
  cases answer with
  | ok output =>
    simp only [ensures_bind, ensures_now, ensures_modifyUnit, ensures_modifyPhase, ensures_push,
      ensures_pure]
    exact fun time => ⟨_, (hcalled.silent rfl).silent rfl, Nat.le_succ 6⟩
  | error e =>
    simp only [ensures_bind, ensures_modifyUnit, ensures_modifyPhase, ensures_push, ensures_pure]
    exact ⟨_, hcalled.silent rfl, Nat.le_succ 6⟩

theorem ensures_publishAll_watched {E : PipelineError → Assertion} (lake : Workspace)
    (plan : List (String × String)) (h : run.Publishing) :
    Ensures (publishAll lake plan) (fun _ run _ => run.Publishing) E run p := by
  induction plan generalizing run p with
  | nil => exact h
  | cons step rest ih =>
    refine (ensures_publishOne_watched lake step.1 step.2 h).bind fun ok run p h => ?_
    exact (ih h).bind fun published run p h => h

theorem ensures_publish_watched (lake : Workspace) (target : String) (h : run.At (.look false)) :
    Ensures (publish lake target) (fun _ run _ => run.Unbroken)
      (fun e run _ => run.Unbroken ∧ e ≠ .cancelled) run p := by
  simp only [publish, ensures_bind, ensures_modifyPhase]
  refine (ensures_call _).mpr fun answer => ?_
  have hcalled := h.call (.query lake.root (publishQuery target)) answer
    (rfl : lastMark? [] = none)
  cases answer with
  | error e => exact ⟨hcalled.unbroken (by simp), by simp⟩
  | ok labels =>
    simp only [ensures_orThrow_ok, builtUnits, ensures_bind, ensures_get, ensures_pure]
    split
    · simp only [ensures_bind, ensures_now, ensures_modifyPhase]
      exact fun time => (hcalled.unbroken (by simp)).silent rfl
    · refine (ensures_publishAll_watched lake _ ⟨_, hcalled, Nat.le_refl 6⟩).bind ?_
      rintro published run p ⟨c, hc, -⟩
      simp only [ensures_bind, ensures_now, ensures_modifyPhase]
      exact fun time => (hc.unbroken (by simp)).silent rfl

theorem ensures_publishTarget_watched (lake : Workspace) (place : String) (h : run.Unbroken)
    (hp : Accounted run p) (hpast : Past run) :
    Ensures (publishTarget lake place) (fun _ run _ => run.Unbroken ∧ Past run) (Left goOn)
      run p := by
  simp only [publishTarget, ensures_bind, ensures_enter, ensures_tryCatch]
  refine ⟨.of_stopped (h.look true rfl) ((hp.advance _).silent rfl)
    (Or.inl (hpast.append (by simp))), fun time => ?_⟩
  have hentered := h.enter .publish time (enteredInto .publish time p)
  refine ((ensures_publish_watched lake place hentered).and
    ((made_publish (k := 3) (by omega) lake place).free.ensures keeps_past
      (hpast.append (by simp)))).mono ?_ ?_
  · rintro _ run p ⟨h, hpast⟩
    rw [ensures_leave]
    exact ⟨h.silent rfl, hpast.append (by simp)⟩
  · rintro e run p ⟨⟨h, he⟩, hpast⟩
    rw [ensures_abort_some]
    exact fun time' => .abort h hpast he _ _ _

/-! ## The whole build -/

/-- **The ways in which a build can end.**  A build that begins without units and before its
build phase has, when it returns, made no call where it may not stand.  With a value it is past
the look before the build phase; with an error it is so too or has ended before it, and if it was
asked to stop it has just seen this and its units are accounted for. -/
theorem ensures_wholeBuild_watched (goOn : Bool) (lake : Workspace) (target : String)
    (options : BuildOptions) (hunits : p.units = ∅)
    (hbuild : (p.phases.get .build).state = .notStarted) :
    Ensures (wholeBuild lake target options) (fun _ run _ => Guarded run ∧ Past run) (Left goOn)
      [] p := by
  have hstart : Unbuilt [] { p with lake := some (p.lake.getD lake) } := ⟨⟨rfl, hunits⟩, hbuild⟩
  unfold wholeBuild
  simp only [ensures_bind, ensures_modify, ensures_checkpoint]
  refine ⟨Halted.left (.stopped (Run.unbroken_nil.look true rfl) ((hstart.advance _).silent rfl)),
    (ensures_call _).mpr fun answer => ?_⟩
  have hcalled := ((Run.unbroken_nil.look false (rfl : lastMark? [] = none)).call (.prepare lake)
    answer (rfl : lastMark? [] = none)).unbroken (by simp)
  cases answer with
  | error e =>
    rw [ensures_abort_none]
    refine Halted.left (.failed (x := ⟨.prepare lake, .error e⟩) ?_ (by simp) (by simp) rfl)
    exact guarded_append_iff.mpr ⟨hcalled.guarded, hcalled.last, trivial⟩
  | ok _ =>
    refine Ensures.bind ((ensures_generate_watched lake hcalled
      ((hstart.silent rfl).silent rfl)).mono (fun _ _ _ h => h) fun _ _ _ h => Halted.left h) ?_
    rintro _ run p ⟨h, hp⟩
    refine Ensures.bind ((ensures_validate_watched lake options h hp).mono
      (fun _ _ _ h => h) fun _ _ _ h => Halted.left h) ?_
    rintro _ run p ⟨h, hp⟩
    refine (ensures_buildTarget_watched lake target options h hp).bind ?_
    rintro place run p ⟨h, hp, hpast⟩
    split
    · refine (ensures_publishTarget_watched lake place h hp hpast).bind ?_
      rintro _ run p ⟨h, hpast⟩
      exact ensures_finish.mpr fun time => ⟨(h.silent rfl).guarded, hpast.append (by simp)⟩
    · exact ensures_finish.mpr fun time => ⟨(h.silent rfl).guarded, hpast.append (by simp)⟩

end Pipeline
end ProtoBuild
