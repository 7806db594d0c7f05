import ProtoBuild.Proofs.Pipeline.Parts
import ProtoBuild.Proofs.Pipeline.Stages

/-!
# A build phase by phase

All phases run alike: a phase is entered, something is done within it, its end is recorded and
announced.  A build can be asked to stop before a phase, and an error ends it within one.  What is
to be shown of whole builds often speaks of these few places only.  `Phasewise` says that some
conditions fit together there: one between phases, one within a phase, one for a phase that is
over and not yet announced, and one for builds that have ended without a result.

`Phasewise.wholeBuild` goes through a build with such conditions.  What happens within the build
phase is a hypothesis of it, since there is more to be said of the units.

## Ends of phases

An end is written down in one way: some notes, and then the final state with the time that was
read (`PhaseRecord.Ends`).  So a condition has to fit to this one change, and not to each way in
which a phase can succeed, fail or be skipped.

## Errors

An error within a phase is announced as that of the phase.  Two errors are not announced so: a
stop, which is no failure, and that of a lake that was not prepared, which comes before all phases
(`PipelineError.isInner`).
-/

namespace ProtoBuild

/-- An error that occurs within a phase. -/
def PipelineError.isInner : PipelineError → Bool
  | cancelled | scaffold _ => false
  | _ => true

theorem PipelineError.not_cancelled_of_isInner {e : PipelineError} (h : e.isInner = true) :
    ¬ e.isCancelled = true := by
  cases e <;> first | exact Bool.false_ne_true | exact absurd h Bool.false_ne_true

/-! ## Records that end -/

/-- Some notes are written into a record, and then it is ended at a time. -/
def PhaseRecord.Ends (time : UInt64) (r r' : PhaseRecord) : Prop :=
  ∃ noted state error, r.Noted noted ∧ PhaseState.isFinal state = true ∧
    r' = (noted.finish state time error).1

namespace PhaseRecord

variable {r r' r'' : PhaseRecord} {time : UInt64}

theorem ends_succeed (r : PhaseRecord) (time : UInt64) : r.Ends time (r.succeed time).1 :=
  ⟨r, .succeeded, none, .refl r, rfl, rfl⟩

theorem ends_fail (r : PhaseRecord) (time : UInt64) (message : String) :
    r.Ends time (r.fail time message).1 :=
  ⟨r, .failed, some message, .refl r, rfl, rfl⟩

theorem ends_skip (r : PhaseRecord) (time : UInt64) (reason : String) :
    r.Ends time (r.skip time reason).1 :=
  ⟨r.addLog reason, .skipped, none, r.noted_addLog reason, rfl, rfl⟩

theorem Noted.ends (h : r.Noted r') (h' : r'.Ends time r'') : r.Ends time r'' := by
  obtain ⟨noted, state, error, hnoted, hstate, heq⟩ := h'
  exact ⟨noted, state, error, h.trans hnoted, hstate, heq⟩

theorem Ends.isFinal (h : r.Ends time r') : r'.isFinal = true := by
  obtain ⟨noted, state, error, -, hstate, rfl⟩ := h
  exact isFinal_finish noted hstate time error

/-- The end of a record keeps it well timed. -/
theorem Ends.wellTimed (h : r.Ends time r') (hr : r.WellTimed) : r'.WellTimed := by
  obtain ⟨noted, state, error, hnoted, hstate, rfl⟩ := h
  exact ((leads_finish noted hstate time error).onward (hr.noted hnoted)).1

/-- A record that is running ends at the given time and keeps its start. -/
theorem Ends.times (h : r.Ends time r') (hr : r.WellTimed) (hrunning : r.state = .running) :
    r'.startTime = r.startTime ∧ r'.endTime = some time := by
  obtain ⟨noted, state, error, hnoted, -, rfl⟩ := h
  have hopen : noted.isFinal = false := hnoted.isFinal_eq.trans (isFinal_of_state hrunning)
  obtain ⟨start, hstart⟩ := Option.isSome_iff_exists.mp
    (hr.has_start (by rw [hrunning]; exact PhaseState.noConfusion))
  rw [finish, if_neg (by rw [hopen]; exact Bool.false_ne_true)]
  refine ⟨?_, rfl⟩
  dsimp only
  rw [hnoted.startTime_eq, hstart, Option.getD_some]

end PhaseRecord

namespace Pipeline

open Work Progress

variable {α : Type} {run : Run} {p : Progress} {time : UInt64} {k : Nat} {q : Phase}
  {e : PipelineError} {f : PhaseRecord → PhaseRecord}

/-! ## Parts that end with a value -/

/-- A part of a build that throws no error. -/
def Work.Total (work : Work α) : Prop :=
  ∀ run p, Ensures work (fun _ _ _ => True) (fun _ _ _ => False) run p

/-- Of a part that throws no error nothing has to be shown for errors. -/
theorem Work.Made.ensures_of_total {M : (Progress → Progress) → Prop} {S : Request → Prop}
    {work : Work α} {I : Assertion} {E : PipelineError → Assertion} (h : Made M S work)
    (htotal : work.Total) (hI : Keeps M S I) (hp : I run p) :
    Ensures work (fun _ => I) E run p :=
  ((h.ensures hI hp).and (htotal run p)).mono (fun _ _ _ h => h.1) fun _ _ _ h => h.2.elim

theorem total_failUnit (unit reason : String) (time : UInt64) :
    (failUnit unit reason time).Total := by
  intro run p
  simp only [failUnit, ensures_bind, ensures_modifyUnit, ensures_pure]

theorem total_buildUnit (lake : Workspace) (args : List String) (unit : String) :
    (buildUnit lake args unit).Total := by
  intro run p
  simp only [buildUnit, ensures_bind, ensures_modifyPhase, ensures_now, ensures_modifyUnit]
  intro started
  refine (ensures_call _).mpr fun answer ended => ?_
  cases answer with
  | error e =>
    dsimp only
    split
    · simp only [ensures_bind, ensures_modifyUnit]
      exact total_failUnit _ _ _ _ _
    · exact total_failUnit _ _ _ _ _
  | ok output =>
    simp only [ensures_bind, ensures_modifyUnit]
    split
    · simp only [ensures_bind, ensures_modifyUnit]
      split
      · simp only [ensures_bind, ensures_modifyPhase, ensures_pure]
      · simp only [ensures_bind, ensures_modifyPhase, ensures_pure]
    · exact total_failUnit _ _ _ _ _

theorem total_publishOne (lake : Workspace) (label unit : String) :
    (publishOne lake label unit).Total := by
  intro run p
  simp only [publishOne, ensures_bind, ensures_modifyPhase]
  refine (ensures_call _).mpr fun answer => ?_
  cases answer with
  | error e =>
    simp only [ensures_bind, ensures_modifyPhase, ensures_modifyUnit, ensures_push, ensures_pure]
  | ok output =>
    simp only [ensures_bind, ensures_now, ensures_modifyUnit, ensures_modifyPhase, ensures_push,
      ensures_pure, implies_true]

theorem total_publishAll (lake : Workspace) (plan : List (String × String)) :
    (publishAll lake plan).Total := by
  induction plan with
  | nil => exact fun _ _ => trivial
  | cons step rest ih =>
    intro run p
    refine (total_publishOne lake step.1 step.2 run p).bind fun _ run p _ => ?_
    exact (ih run p).bind fun _ _ _ _ => trivial

/-! ## Conditions that fit to the phases -/

/-- What is known if the build is stopped here. -/
def Stops (Halted : PipelineError → Assertion) : Assertion := fun run p =>
  Halted .cancelled (run ++ [told (.updated (p.advance .cancelled).1)]) (p.advance .cancelled).1

/-- What is known if an error ends the build here, within a phase. -/
def Aborts (Halted : PipelineError → Assertion) (q : Phase) (e : PipelineError) : Assertion :=
  fun run p => ∀ time, Halted e
    (run ++ [timed time, told (.phaseCompleted q false (some e.message)),
      told (.updated (abortedIn q time e p)), told (.failed e.message)])
    (abortedIn q time e p)

/-- What is known if the build phase throws an error here. -/
def Breaks (Halted : PipelineError → Assertion) (e : PipelineError) : Assertion := fun run p =>
  if e.isCancelled = true then Stops Halted run p else Aborts Halted .build e run p

/-- Some conditions on builds fit together: between phases, within a phase, for a phase that is
over and not yet announced, and for builds that have ended without a result. -/
structure Phasewise (Out : Nat → Assertion) (In Over : Phase → Assertion)
    (Halted : PipelineError → Assertion) : Prop where
  look : ∀ {run p}, Out 0 run p → Out 0 (run ++ [looked false]) p
  prepared : ∀ {run p} lake, Out 0 run p → Out 0 (run ++ [called (.prepare lake) (.ok ())]) p
  unprepared : ∀ {run p} lake e, Out 0 run p →
    Halted (.scaffold e)
      (run ++ [called (.prepare lake) (.error e), told (.updated (p.advance .failed).1),
        told (.failed (PipelineError.scaffold e).message)])
      (p.advance .failed).1
  stop : ∀ {run p k}, Out k run p → Stops Halted (run ++ [looked true]) p
  enter : ∀ {run p q} time, Out q.index run p →
    In q
      (run ++ [looked false, timed time, told (.updated (enteredInto q time p)),
        told (.phaseStarted q)])
      (enteredInto q time p)
  keeps : ∀ {q i j}, j < 5 ∨ 5 < i → Keeps Working (Request.Within i j) (In q)
  close : ∀ {run p q f} time, (∀ r : PhaseRecord, r.Ends time (f r)) → In q run p →
    Over q (run ++ [timed time]) (p.modifyPhase q f)
  leave : ∀ {run p q}, Over q run p →
    Out (q.index + 1)
      (run ++ [told (.updated p), told (.phaseCompleted q
        ((p.phases.get q).state != .failed) (p.phases.get q).error)]) p
  abort : ∀ {run p q e}, e.isInner = true → In q run p → Aborts Halted q e run p

namespace Phasewise

variable {Out : Nat → Assertion} {In Over : Phase → Assertion}
  {Halted : PipelineError → Assertion} {Done : BuildResult → Assertion}

section

variable (h : Phasewise Out In Over Halted)

include h

/-- A phase is entered, or the build is stopped before it. -/
theorem entered (hp : Out q.index run p) :
    Ensures (Pipeline.enter q) (fun _ => In q) Halted run p := by
  rw [ensures_enter]
  have hstop := h.stop hp
  rw [Stops, List.append_assoc] at hstop
  exact ⟨hstop, fun time => h.enter time hp⟩

/-- Notes are written while a phase runs. -/
theorem noted {g : PhaseRecord → PhaseRecord} (hleads : ∀ r : PhaseRecord, r.Leads (g r))
    (hnoted : ∀ r : PhaseRecord, r.Noted (g r)) (phase : Phase) (hp : In q run p) :
    In q run (p.modifyPhase phase g) :=
  (h.keeps (i := 0) (j := 0) (Or.inl (by decide))).modify _
    (annotates_modifyPhase phase hleads hnoted).working hp

theorem logged (line : String) (hp : In q run p) : In q run (p.modifyPhase q (·.addLog line)) :=
  h.noted (fun r => r.leads_addLog line) (fun r => r.noted_addLog line) q hp

theorem named (text : String) (hp : In q run p) :
    In q run (p.modifyPhase q (·.setSubPhase text)) :=
  h.noted (fun r => r.leads_setSubPhase text) (fun r => r.noted_setSubPhase text) q hp

/-- A collaborator is called that is not the build tool. -/
theorem asked {c : Call} (answer : c.Answer) (hc : c.rank ≠ 5) (hp : In q run p) :
    In q (run ++ [called c answer]) p :=
  (h.keeps (i := c.rank) (j := c.rank) (by omega)).request (.call c) answer
    ⟨Nat.le_refl _, Nat.le_refl _⟩ hp

theorem read (time : UInt64) (hp : In q run p) : In q (run ++ [timed time]) p :=
  (h.keeps (i := 0) (j := 0) (Or.inl (by decide))).request .now time trivial hp

/-! ## Generation and checks -/

theorem generate (lake : Workspace) (hp : Out Phase.codegen.index run p) :
    Ensures (generate lake) (fun _ => Out Phase.validation.index) Halted run p := by
  rw [Pipeline.generate]
  refine (h.entered hp).bind fun _ run p hp => ?_
  rw [ensures_bind]
  refine (ensures_call _).mpr ?_
  rintro ⟨notes, answer⟩
  have hnoted := h.noted (PhaseRecord.leads_foldl (fun r note => r.leads_write note) notes)
    (fun r => r.noted_writeAll notes) .codegen
    (h.asked (c := .codegen lake) (notes, answer) (by simp [Call.rank]) hp)
  simp only [ensures_bind, ensures_writeNotes]
  cases answer with
  | error e =>
    rw [ensures_abort_some]
    exact h.abort rfl hnoted
  | ok _ =>
    simp only [ensures_bind, ensures_now, ensures_modifyPhase, ensures_leave]
    exact fun time => h.leave (h.close time (fun r => r.ends_succeed time) hnoted)

theorem recordReport (report : CheckReport) (hp : In .validation run p) :
    Ensures (recordReport report) (fun _ => Over .validation) Halted run p := by
  simp only [Pipeline.recordReport, ensures_bind, ensures_now, ensures_modifyPhase]
  intro time
  -- the findings are notes, and it does not matter that the time is read before them
  have hlogged := h.noted
    (PhaseRecord.leads_foldl (fun r (f : Finding) => r.leads_addLog f.text) report.findings)
    (PhaseRecord.foldl_related .refl .trans (fun r (f : Finding) => r.noted_addLog f.text)
      report.findings) .validation hp
  cases report.skipped with
  | some reason =>
    rw [ensures_modifyPhase]
    exact h.close time (fun r => r.ends_skip time reason) hlogged
  | none =>
    dsimp only
    split
    · rw [ensures_modifyPhase]
      exact h.close time (fun r => r.ends_succeed time) hlogged
    · rw [ensures_abort_some]
      exact h.abort rfl (h.read time hlogged)

theorem validate (lake : Workspace) (options : BuildOptions)
    (hp : Out Phase.validation.index run p) :
    Ensures (validate lake options) (fun _ => Out Phase.build.index) Halted run p := by
  rw [Pipeline.validate]
  refine (h.entered hp).bind fun _ run p hp => ?_
  split
  · simp only [ensures_bind, ensures_now, ensures_modifyPhase, ensures_leave]
    exact fun time => h.leave (h.close time (fun r => r.ends_skip time _) hp)
  · simp only [ensures_bind]
    refine (ensures_call _).mpr ?_
    rintro ⟨notes, answer⟩
    have hnoted := h.noted (PhaseRecord.leads_foldl (fun r note => r.leads_write note) notes)
      (fun r => r.noted_writeAll notes) .validation
      (h.asked (c := .validate lake) (notes, answer) (by simp [Call.rank]) hp)
    simp only [ensures_writeNotes]
    cases answer with
    | error e =>
      simp only [ensures_bind, ensures_abort_some]
      exact h.abort rfl hnoted
    | ok report =>
      refine (h.recordReport report hnoted).bind fun _ run p hp => ?_
      rw [ensures_leave]
      exact h.leave hp

/-! ## Builds and publications -/

theorem buildTarget (lake : Workspace) (target : String) (options : BuildOptions)
    (hbuild : ∀ place run p, In .build run p →
      Ensures (build lake place (options.onLake lake)) (fun _ => Over .build) (Breaks Halted)
        run p)
    (hp : Out Phase.build.index run p) :
    Ensures (buildTarget lake target options) (fun _ => Out Phase.publish.index) Halted run p := by
  rw [Pipeline.buildTarget]
  refine (h.entered hp).bind fun _ run p hp => ?_
  cases lake.relative? target with
  | none =>
    simp only [ensures_abort_some]
    exact h.abort rfl hp
  | some place =>
    simp only [ensures_bind, ensures_tryCatch]
    refine (hbuild place run p hp).mono (fun _ run p hp => ?_) fun e run p hp => ?_
    · simp only [ensures_leave, ensures_pure]
      exact h.leave hp
    · unfold Breaks at hp
      split
      · rename_i hcancelled
        rw [if_pos hcancelled] at hp
        rw [ensures_stop]
        exact hp
      · rename_i hother
        rw [if_neg hother] at hp
        rw [ensures_abort_some]
        exact hp

theorem publish (lake : Workspace) (target : String) (hp : In .publish run p) :
    Ensures (publish lake target) (fun _ => Over .publish) (Aborts Halted .publish) run p := by
  simp only [Pipeline.publish, ensures_bind, ensures_modifyPhase]
  have hnamed := h.named "Discovering publish targets" hp
  refine (ensures_call _).mpr fun answer => ?_
  have hasked := h.asked (c := .query lake.root (publishQuery target)) answer
    (by simp [Call.rank]) hnamed
  cases answer with
  | error e =>
    rw [ensures_orThrow_error]
    exact h.abort rfl hasked
  | ok labels =>
    simp only [ensures_orThrow_ok, builtUnits, ensures_bind, ensures_get, ensures_pure]
    split
    · simp only [ensures_bind, ensures_now, ensures_modifyPhase]
      exact fun time => h.close time (fun r => r.ends_skip time _) hasked
    · refine ((made_publishAll lake _).ensures_of_total (total_publishAll lake _)
        (h.keeps (Or.inr (by decide))) hasked).bind fun published run p hp => ?_
      simp only [ensures_bind, ensures_now, ensures_modifyPhase]
      refine fun time => h.close time (fun r => ?_) hp
      split
      · exact r.ends_fail time _
      · exact (r.noted_addLog _).ends (PhaseRecord.ends_succeed _ time)

theorem publishTarget (lake : Workspace) (place : String) (hp : Out Phase.publish.index run p) :
    Ensures (publishTarget lake place) (fun _ => Out (Phase.publish.index + 1)) Halted run p := by
  rw [Pipeline.publishTarget]
  refine (h.entered hp).bind fun _ run p hp => ?_
  simp only [ensures_bind, ensures_tryCatch]
  refine (h.publish lake place hp).mono (fun _ run p hp => ?_) fun e run p hp => ?_
  · rw [ensures_leave]
    exact h.leave hp
  · rw [ensures_abort_some]
    exact hp

/-! ## The whole build -/

/-- **A build phase by phase.**  If some conditions fit together at the phases, a build that begins
with the first of them ends with the others. -/
theorem wholeBuild (lake : Workspace) (target : String) (options : BuildOptions)
    (hbuild : ∀ place run p, In .build run p →
      Ensures (build lake place (options.onLake lake)) (fun _ => Over .build) (Breaks Halted)
        run p)
    (hfinish : ∀ run p time, Out (if options.installLocal then 4 else 3) run p →
      Done ((p.advance .completed).1.result time)
        (run ++ [told (.updated (p.advance .completed).1), timed time,
          told (.completed ((p.advance .completed).1.result time))])
        (p.advance .completed).1)
    (hstart : Out 0 [] { p with lake := some (p.lake.getD lake) }) :
    Ensures (wholeBuild lake target options) Done Halted [] p := by
  unfold Pipeline.wholeBuild
  simp only [ensures_bind, ensures_modify, ensures_checkpoint]
  refine ⟨h.stop hstart, (ensures_call _).mpr fun answer => ?_⟩
  cases answer with
  | error e =>
    rw [ensures_abort_none, List.append_assoc]
    exact h.unprepared lake e (h.look hstart)
  | ok _ =>
    refine (h.generate lake (h.prepared lake (h.look hstart))).bind fun _ run p hp => ?_
    refine (h.validate lake options hp).bind fun _ run p hp => ?_
    refine (h.buildTarget lake target options hbuild hp).bind fun place run p hp => ?_
    split
    · rename_i hlocal
      rw [if_pos hlocal] at hfinish
      refine (h.publishTarget lake place hp).bind fun _ run p hp => ?_
      exact ensures_finish.mpr fun time => hfinish run p time hp
    · rename_i hlocal
      rw [if_neg hlocal] at hfinish
      exact ensures_finish.mpr fun time => hfinish run p time hp

end

end Phasewise

/-! ## The last look at the progress -/

/-- Between and within phases nothing has to be known; a build that ends shows its progress. -/
theorem phasewise_shown : Phasewise (fun _ _ _ => True) (fun _ _ _ => True) (fun _ _ _ => True)
    fun _ run p => lastShown? run = some p where
  look _ := trivial
  prepared _ _ := trivial
  unprepared _ _ _ := lastShown?_append rfl
  stop _ := lastShown?_append rfl
  enter _ _ := trivial
  keeps _ := ⟨fun _ _ _ => trivial, fun _ _ _ _ => trivial, fun _ => trivial⟩
  close _ _ _ := trivial
  leave _ := trivial
  abort _ _ := fun _ => lastShown?_append rfl

/-- However a build ends, it has shown its progress after the last change. -/
theorem ensures_shown_last (lake : Workspace) (target : String) (options : BuildOptions)
    (p : Progress) :
    Ensures (wholeBuild lake target options) (fun _ run p => lastShown? run = some p)
      (fun _ run p => lastShown? run = some p) [] p := by
  refine phasewise_shown.wholeBuild lake target options (fun place run p _ => ?_)
    (fun run p time _ => lastShown?_append rfl) trivial
  refine (ensures_trivial _).mono (fun _ _ _ _ => trivial) fun e run p _ => ?_
  unfold Breaks
  split
  · exact lastShown?_append rfl
  · exact fun time => lastShown?_append rfl

end Pipeline
end ProtoBuild
