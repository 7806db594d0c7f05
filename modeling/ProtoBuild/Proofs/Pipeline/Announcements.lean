import Mathlib.Data.List.Basic
import ProtoBuild.Proofs.Pipeline.Unitwise

/-!
# What a build announces

Apart from the progress that it shows, a build tells its listener when a phase starts and when it
is complete, and at the end that the build is completed or has failed.  Whoever draws this, as a
tree of phases, relies on a shape: each phase that has started is completed before the next one
starts, and what is said of an end is what the record of the phase says.

`announced` says that a build that begins anew keeps to it.  Its milestones are the announcements of
the first phases, one block for each, as they can be read off the progress of the end
(`PhaseRecords.blocks`), and then how the build has ended (`Concluded`).  There is one exception: a
build that is asked to stop between two units leaves the block of the build phase open.

## Where the completion of a phase is told

A phase is told as complete at its regular end and when an error ends the build, and the build phase
may have failed by itself before.  In all of these cases the record is final when the completion is
told, so what is told is what the record says to the end.  That is why the blocks can be read off
the last progress, and why they do not change while later phases run (`Opened`).
-/

namespace ProtoBuild

namespace PhaseRecords

variable {r r' : PhaseRecords} {k : Nat}

/-- What is announced of a phase that has ended as its record says. -/
def block (r : PhaseRecords) (q : Phase) : List Event :=
  [.phaseStarted q, .phaseCompleted q ((r.get q).state != .failed) (r.get q).error]

/-- What is announced of the first phases, one after another. -/
def blocks (r : PhaseRecords) (k : Nat) : List Event := (Phase.all.take k).flatMap r.block

theorem blocks_succ (r : PhaseRecords) (q : Phase) :
    r.blocks (q.index + 1) = r.blocks q.index ++ r.block q := by
  rw [blocks, Phase.take_succ, List.flatMap_append, List.flatMap_singleton, blocks]

/-- The announcements depend on the states and the errors of the first phases only. -/
theorem blocks_congr
    (h : ∀ q : Phase, q.index < k →
      (r'.get q).state = (r.get q).state ∧ (r'.get q).error = (r.get q).error) :
    r'.blocks k = r.blocks k := by
  refine List.flatMap_congr fun q hq => ?_
  obtain ⟨hstate, herror⟩ := h q (Phase.mem_take_iff.mp hq)
  rw [block, hstate, herror, block]

/-- What is done to a phase does not matter to the announcements before it. -/
theorem blocks_modify {q : Phase} (hk : k ≤ q.index) (f : PhaseRecord → PhaseRecord) :
    (r.modify q f).blocks k = r.blocks k := by
  refine blocks_congr fun s hs => ?_
  have hne : s ≠ q := by
    rintro rfl
    omega
  rw [get_modify, if_neg hne]
  exact ⟨rfl, rfl⟩

end PhaseRecords

/-- A build has not begun: it is in its first stage, and none of its phases has started. -/
structure Progress.Unstarted (p : Progress) : Prop where
  stage_eq : p.stage = .initializing
  waiting : ∀ q, (p.phases.get q).state = .notStarted

theorem Progress.unstarted_initial (lake : Workspace) (target branch : String) (now : UInt64) :
    (initial lake target branch now).Unstarted where
  stage_eq := rfl
  waiting q := by cases q <;> rfl

namespace Pipeline

open Work Progress Program

variable {run more : Run} {p : Progress} {es : List Event} {e : PipelineError} {q : Phase}
  {k : Nat} {f : PhaseRecord → PhaseRecord} {s : Progress}

/-! ## Milestones -/

/-- What the listener was told apart from the progress. -/
def milestones (run : Run) : List Event := (events run).filter fun e => e.progress?.isNone

@[simp] theorem milestones_append (run more : Run) :
    milestones (run ++ more) = milestones run ++ milestones more := by
  rw [milestones, events_append, List.filter_append, milestones, milestones]

/-! ## Starts that are shown -/

/-- Directly before each start of a phase the listener was shown that the phase is running. -/
def Heralded (es : List Event) : Prop :=
  ∀ before after q, es = before ++ .phaseStarted q :: after →
    ∃ s, before.getLast? = some (.updated s) ∧ s.stage = q.stage ∧
      (s.phases.get q).state = .running

theorem heralded_nil : Heralded [] := by
  intro before after q h
  exact absurd h.symm (by simp)

theorem Heralded.concat (h : Heralded es) {e : Event}
    (he : ∀ q, e = .phaseStarted q → ∃ s, es.getLast? = some (.updated s) ∧ s.stage = q.stage ∧
      (s.phases.get q).state = .running) :
    Heralded (es ++ [e]) := by
  intro before after q heq
  rcases List.eq_nil_or_concat' after with rfl | ⟨rest, last, rfl⟩
  · obtain ⟨rfl, hlast⟩ := List.append_inj' heq rfl
    exact he q (List.singleton_inj.mp hlast)
  · rw [← List.cons_append, ← List.append_assoc] at heq
    exact h before rest q (List.append_inj' heq rfl).1

/-- What is no start needs no herald. -/
theorem Heralded.append (h : Heralded es) (more : List Event)
    (hmore : ∀ q, Event.phaseStarted q ∉ more) : Heralded (es ++ more) := by
  induction more generalizing es with
  | nil =>
    rw [List.append_nil]
    exact h
  | cons e rest ih =>
    rw [List.append_cons]
    refine ih (h.concat fun q he => ?_) fun q hq => hmore q (List.mem_cons_of_mem _ hq)
    exact absurd (he ▸ List.mem_cons_self) (hmore q)

/-- A phase that is shown as running can be announced. -/
theorem Heralded.start (h : Heralded es) (hstage : s.stage = q.stage)
    (hstate : (s.phases.get q).state = .running) :
    Heralded (es ++ [.updated s, .phaseStarted q]) := by
  have hshown : Heralded (es ++ [.updated s]) := h.append _ (by simp)
  rw [List.append_cons]
  refine hshown.concat fun q' hq' => ?_
  cases hq'
  exact ⟨s, List.getLast?_concat, hstage, hstate⟩

theorem Heralded.silent (h : Heralded (events run)) (hmore : milestones more = []) :
    Heralded (events (run ++ more)) := by
  rw [events_append]
  refine h.append _ fun q hq => ?_
  exact absurd rfl (List.filter_eq_nil_iff.mp hmore _ hq)

/-! ## Between, within and behind phases -/

/-- Between phases all blocks are closed, and the listener was shown no phase that is running. -/
structure Closed (k : Nat) (run : Run) (p : Progress) : Prop where
  through : p.Through k
  stage_le : p.stage.rank ≤ k
  milestones_eq : milestones run = p.phases.blocks k
  heralded : Heralded (events run)
  still : ∀ s, lastShown? run = some s → ∀ q, (s.phases.get q).state ≠ .running

/-- Within a phase its block is open, and those before are closed.  Nothing is said of the record
of the phase. -/
structure Opened (q : Phase) (run : Run) (p : Progress) : Prop extends Within q p where
  stage_eq : p.stage = q.stage
  milestones_eq : milestones run = p.phases.blocks q.index ++ [.phaseStarted q]
  heralded : Heralded (events run)

/-- The phase is running, and the listener was shown that. -/
structure Running (q : Phase) (run : Run) (p : Progress) : Prop extends Opened q run p where
  running : (p.phases.get q).state = .running
  shown : ∃ s, lastShown? run = some s ∧ (s.phases.get q).state = .running

/-- The phase is over, and its block is still open. -/
structure Ending (q : Phase) (run : Run) (p : Progress) : Prop extends Opened q run p where
  final : (p.phases.get q).isFinal = true

/-- How a build has ended.  Each of the first phases has its block, and then it is told how the
build has ended; a build that was asked to stop says nothing of it. -/
inductive Concluded (options : BuildOptions) (run : Run) (p : Progress) :
    Except PipelineError BuildResult → Prop
  /-- All blocks are closed, and the completion is told last. -/
  | completed {result : BuildResult} (through : p.Through (if options.installLocal then 4 else 3))
      (milestones_eq : milestones run =
        p.phases.blocks (if options.installLocal then 4 else 3) ++ [.completed result])
      (last : (events run).getLast? = some (.completed result)) :
      Concluded options run p (.ok result)
  /-- The lake was not prepared, so there are no blocks. -/
  | unprepared {e : ScaffoldError} (through : p.Through 0)
      (milestones_eq : milestones run = [.failed (PipelineError.scaffold e).message])
      (last : (events run).getLast? = some (.failed (PipelineError.scaffold e).message)) :
      Concluded options run p (.error (.scaffold e))
  /-- A phase has failed.  Its block is closed with the message of the error. -/
  | failed {e : PipelineError} (q : Phase) (inner : e.isInner = true)
      (through : p.Through (q.index + 1)) (state : (p.phases.get q).state = .failed)
      (error : (p.phases.get q).error = some e.message)
      (milestones_eq : milestones run = p.phases.blocks (q.index + 1) ++ [.failed e.message])
      (last : (events run).getLast? = some (.failed e.message)) :
      Concluded options run p (.error e)
  /-- The build was asked to stop while no phase was running. -/
  | stopped (k : Nat) (through : p.Through k) (milestones_eq : milestones run = p.phases.blocks k)
      (before after : Run) (looks : run = before ++ looked true :: after)
      (still : ∀ s, lastShown? before = some s → ∀ q, (s.phases.get q).state ≠ .running) :
      Concluded options run p (.error .cancelled)
  /-- The build was asked to stop between two units, while the build phase was running. -/
  | interrupted (through : p.Through (Phase.build.index + 1))
      (milestones_eq : milestones run = p.phases.blocks Phase.build.index ++ [.phaseStarted .build])
      (before after : Run) (looks : run = before ++ looked true :: after)
      (running : ∃ s, lastShown? before = some s ∧ (s.phases.get .build).state = .running) :
      Concluded options run p (.error .cancelled)

/-- How a build has ended, and that its starts were shown. -/
def Announced (options : BuildOptions) (answer : Except PipelineError BuildResult) (run : Run)
    (p : Progress) : Prop :=
  Concluded options run p answer ∧ Heralded (events run)

theorem Opened.modifyPhase (h : Opened q run p) (f : PhaseRecord → PhaseRecord) :
    Opened q run (p.modifyPhase q f) where
  toWithin := h.toWithin.modifyPhase
  stage_eq := h.stage_eq
  milestones_eq := by
    rw [phases_modifyPhase, PhaseRecords.blocks_modify (Nat.le_refl _)]
    exact h.milestones_eq
  heralded := h.heralded

theorem Opened.silent (h : Opened q run p) (hmore : milestones more = []) :
    Opened q (run ++ more) p where
  toWithin := h.toWithin
  stage_eq := h.stage_eq
  milestones_eq := by rw [milestones_append, hmore, List.append_nil, h.milestones_eq]
  heralded := h.heralded.silent hmore

/-- What is done while a phase runs changes no block. -/
theorem Opened.working (h : Opened q run p) {g : Progress → Progress} (hg : Working g) :
    Opened q run (g p) where
  toWithin := h.toWithin.noted (hg.noted p)
  stage_eq := (hg.stage_eq p).trans h.stage_eq
  milestones_eq := by
    have hblocks : (g p).phases.blocks q.index = p.phases.blocks q.index :=
      PhaseRecords.blocks_congr fun r _ => ⟨(hg.noted p r).state_eq, (hg.noted p r).error_eq⟩
    rw [hblocks]
    exact h.milestones_eq
  heralded := h.heralded

/-- The units are no part of the announcements. -/
theorem Opened.withUnits (h : Opened q run p) (units : List String) (version : String) :
    Opened q run (p.withUnits units version) :=
  ⟨⟨h.ended, h.waiting⟩, h.stage_eq, h.milestones_eq, h.heralded⟩

theorem Ending.through (h : Ending q run p) : p.Through (q.index + 1) :=
  h.toWithin.through h.final

/-- The block of a phase that is over is closed with what its record says. -/
theorem Ending.closed (h : Ending q run p) :
    Closed (q.index + 1)
      (run ++ [told (.updated p), told (.phaseCompleted q
        ((p.phases.get q).state != .failed) (p.phases.get q).error)]) p where
  through := h.through
  stage_le := Nat.le_of_eq (by rw [h.stage_eq, Phase.rank_stage])
  milestones_eq := by
    rw [milestones_append, h.milestones_eq, PhaseRecords.blocks_succ]
    exact List.append_assoc _ _ _
  heralded := by
    rw [events_append]
    exact h.heralded.append _ (by simp)
  still s hs r := by
    have hlast : lastShown? (run ++ [told (.updated p), told (.phaseCompleted q
        ((p.phases.get q).state != .failed) (p.phases.get q).error)]) = some p :=
      lastShown?_append rfl
    obtain rfl := Option.some.inj (hlast.symm.trans hs)
    exact h.through.not_running r

/-- An error closes the block of its phase and ends the build, also if the phase has failed with it
before. -/
theorem Opened.aborted (h : Opened q run p) (options : BuildOptions) (he : e.isInner = true)
    (time : UInt64)
    (hfail : ((p.phases.get q).fail time e.message).1.state = .failed ∧
      ((p.phases.get q).fail time e.message).1.error = some e.message) :
    Announced options (.error e)
      (run ++ [timed time, told (.phaseCompleted q false (some e.message)),
        told (.updated (abortedIn q time e p)), told (.failed e.message)])
      (abortedIn q time e p) := by
  have hfailed := h.modifyPhase fun r => (r.fail time e.message).1
  have hget : (abortedIn q time e p).phases.get q = ((p.phases.get q).fail time e.message).1 := by
    rw [abortedIn, phases_advance, get_modifyPhase_self]
  have hending : Ending q run (p.modifyPhase q fun r => (r.fail time e.message).1) := by
    refine ⟨hfailed, ?_⟩
    rw [get_modifyPhase_self]
    exact PhaseRecord.isFinal_fail _ time e.message
  have hblock : (abortedIn q time e p).phases.block q =
      [.phaseStarted q, .phaseCompleted q false (some e.message)] := by
    rw [PhaseRecords.block, hget, hfail.1, hfail.2]
    rfl
  refine ⟨.failed q he hending.through.advance ?_ ?_ ?_ ?_, ?_⟩
  · rw [hget]
    exact hfail.1
  · rw [hget]
    exact hfail.2
  · rw [PhaseRecords.blocks_succ, hblock, milestones_append, hfailed.milestones_eq, abortedIn,
      phases_advance, List.append_assoc, List.append_assoc]
    rfl
  · rw [events_append]
    simp
  · rw [events_append]
    exact h.heralded.append _ (by simp)

/-! ## Phase by phase -/

theorem Closed.silent (h : Closed k run p) (hmore : events more = []) :
    Closed k (run ++ more) p where
  through := h.through
  stage_le := h.stage_le
  milestones_eq := by
    rw [milestones_append, h.milestones_eq, milestones, hmore, List.filter_nil, List.append_nil]
  heralded := by
    rw [events_append, hmore, List.append_nil]
    exact h.heralded
  still s hs := by
    rw [lastShown?, events_append, hmore, List.append_nil] at hs
    exact h.still s hs

/-- A phase opens its block after it was shown that it is running. -/
theorem Closed.enter (h : Closed q.index run p) (time : UInt64) :
    Running q
      (run ++ [looked false, timed time, told (.updated (enteredInto q time p)),
        told (.phaseStarted q)])
      (enteredInto q time p) := by
  have hstage : (enteredInto q time p).stage = q.stage := by
    have hcan : p.stage.canAdvanceTo q.stage = true := by
      have hle := h.stage_le
      revert hle
      cases p.stage <;> cases q <;> decide
    show (p.advance q.stage).1.stage = q.stage
    rw [Progress.advance, if_pos hcan]
  have hrunning := h.through.running_enter time
  refine
    { toWithin := h.through.enter time
      stage_eq := hstage
      milestones_eq := ?_
      heralded := ?_
      running := hrunning
      shown := ⟨_, lastShown?_append rfl, hrunning⟩ }
  · rw [milestones_append, h.milestones_eq, enteredInto, phases_modifyPhase, phases_advance,
      PhaseRecords.blocks_modify (Nat.le_refl _)]
    rfl
  · rw [events_append]
    exact h.heralded.start hstage hrunning

/-- While a phase runs nothing is announced. -/
theorem keeps_running {i j : Nat} : Keeps Working (Request.Within i j) (Running q) where
  modify f hf h :=
    { toOpened := h.toOpened.working hf
      running := ((hf.noted _ q).state_eq).trans h.running
      shown := h.shown }
  request {run p} request answer hrequest h := by
    have hevents : events [⟨request, answer⟩] = [] := by
      cases request with
      | call c => rfl
      | now => rfl
      | isCancelled => exact hrequest.elim
      | tell e => exact hrequest.elim
    refine ⟨h.toOpened.silent (by rw [milestones, hevents, List.filter_nil]), h.running, ?_⟩
    rw [lastShown?, events_append, hevents, List.append_nil]
    exact h.shown
  push {run p} h := ⟨h.toOpened.silent rfl, h.running, p, lastShown?_append rfl, h.running⟩

/-- A record that is running fails with the message that is given. -/
theorem Running.fail (h : Running q run p) (time : UInt64) (message : String) :
    ((p.phases.get q).fail time message).1.state = .failed ∧
      ((p.phases.get q).fail time message).1.error = some message := by
  have hopen : (p.phases.get q).isFinal = false := by
    rw [PhaseRecord.isFinal, h.running]
    rfl
  simp [PhaseRecord.fail, PhaseRecord.finish, hopen]

theorem phasewise_announced (options : BuildOptions) :
    Phasewise Closed Running Ending fun e => Announced options (.error e) where
  look h := h.silent rfl
  prepared _ h := h.silent rfl
  unprepared {run p} lake e h := by
    refine ⟨.unprepared h.through.advance ?_ ?_, ?_⟩
    · rw [milestones_append, h.milestones_eq]
      rfl
    · rw [events_append]
      simp
    · rw [events_append]
      exact h.heralded.append _ (by simp)
  stop {run p k} h := by
    have hsilent : milestones [looked true, told (.updated (p.advance .cancelled).1)] = [] := rfl
    rw [Stops, List.append_assoc]
    refine ⟨.stopped k h.through.advance ?_ run _ rfl h.still, h.heralded.silent hsilent⟩
    rw [milestones_append, h.milestones_eq, phases_advance]
    exact List.append_nil _
  enter time h := h.enter time
  keeps _ := keeps_running
  close {run p q f} time hf h := by
    refine ⟨(h.toOpened.modifyPhase f).silent rfl, ?_⟩
    rw [get_modifyPhase_self]
    exact (hf _).isFinal
  leave h := h.closed
  abort he h := fun time => h.toOpened.aborted options he time (h.fail time _)

/-! ## Unit by unit -/

/-- Of the units that are skipped nothing is announced, and the build phase is over with them. -/
theorem Opened.skipping (h : Opened .build run p) (units : List String) (time : UInt64) :
    Ending .build run (p.skipping units time) := by
  have hunits : ∀ (units : List String) {p : Progress}, Opened .build run p →
      Opened .build run (units.foldl
        (fun p unit => p.modifyUnit unit fun u => (u.move .skipped time).1) p) := by
    intro units
    induction units with
    | nil => exact fun h => h
    | cons unit rest ih =>
      exact fun h => ih ⟨⟨h.ended, h.waiting⟩, h.stage_eq, h.milestones_eq, h.heralded⟩
  refine ⟨(hunits units h).modifyPhase _, ?_⟩
  rw [Progress.skipping, get_modifyPhase_self]
  exact PhaseRecord.isFinal_skip _ time _

/-- A build phase that has failed with an error ends the build with the same message. -/
theorem Running.failing (h : Running .build run p) (options : BuildOptions)
    (he : e.isInner = true) (time : UInt64) :
    Aborts (fun e => Announced options (.error e)) .build e
      (run ++ [timed time, told (.updated (p.failing time e))]) (p.failing time e) := by
  intro time'
  have hget : (p.failing time e).phases.get .build =
      ((p.phases.get .build).fail time e.message).1 := by
    rw [Progress.failing, get_modifyPhase_self]
  have hfrozen : (((p.failing time e).phases.get .build).fail time' e.message).1 =
      ((p.phases.get .build).fail time e.message).1 := by
    rw [hget, PhaseRecord.fail,
      PhaseRecord.finish_of_isFinal (PhaseRecord.isFinal_fail _ time e.message)]
  have hopened : Opened .build (run ++ [timed time, told (.updated (p.failing time e))])
      (p.failing time e) := (h.toOpened.modifyPhase _).silent rfl
  refine hopened.aborted options he time' ?_
  rw [hfrozen]
  exact h.fail time e.message

theorem unitwise_announced (options : BuildOptions) :
    Unitwise Running Ending (fun e => Announced options (.error e))
      fun _ => Running .build where
  begin {run p units} version h _ :=
    ⟨(h.toOpened.withUnits units version).silent rfl, h.running, _, lastShown?_append rfl,
      h.running⟩
  look {run p units} h := by
    refine ⟨h.toOpened.silent rfl, h.running, ?_⟩
    rw [lastShown?, events_append, events_looked, events_nil, List.append_nil]
    exact h.shown
  attempt lake args h := ((made_buildUnit lake args _).ensures keeps_running h).mono
    (fun _ _ _ h => h) fun _ _ _ _ => trivial
  keeps _ :=
    { modify := fun f hf h => (keeps_running (i := 0) (j := 0)).modify f hf.working h
      request := fun _ _ h => h.elim
      push := fun h => (keeps_running (i := 0) (j := 0)).push h }
  stop {run p units} time h := by
    have hskipped := h.toOpened.skipping units time
    have hsilent : milestones [looked true, timed time, told (.updated (p.skipping units time)),
        told (.updated ((p.skipping units time).advance .cancelled).1)] = [] := rfl
    rw [Stops, List.append_assoc]
    refine ⟨.interrupted hskipped.through.advance ?_ run _ rfl h.shown,
      hskipped.heralded.silent hsilent⟩
    rw [phases_advance]
    exact (hskipped.toOpened.silent hsilent).milestones_eq
  fail time he h := h.failing options he time
  close {run p f} time hf h := by
    refine ⟨(h.toOpened.modifyPhase f).silent rfl, ?_⟩
    rw [get_modifyPhase_self]
    exact (hf _).isFinal

/-! ## The whole build -/

theorem closed_of_unstarted (h : p.Unstarted) : Closed 0 [] p where
  through := ⟨fun _ hq => absurd hq (Nat.not_lt_zero _), fun q _ => h.waiting q⟩
  stage_le := by
    rw [h.stage_eq]
    exact Nat.le_refl 0
  milestones_eq := rfl
  heralded := heralded_nil
  still _ hs := nomatch hs

/-- A build that has come through its phases tells of its completion last. -/
theorem Closed.finish {options : BuildOptions}
    (h : Closed (if options.installLocal then 4 else 3) run p) (time : UInt64) :
    Announced options (.ok ((p.advance .completed).1.result time))
      (run ++ [told (.updated (p.advance .completed).1), timed time,
        told (.completed ((p.advance .completed).1.result time))])
      (p.advance .completed).1 := by
  refine ⟨.completed h.through.advance ?_ ?_, ?_⟩
  · rw [milestones_append, h.milestones_eq, phases_advance]
    rfl
  · rw [events_append]
    simp
  · rw [events_append]
    exact h.heralded.append _ (by simp)

theorem ensures_announced (lake : Workspace) (target : String) (options : BuildOptions)
    (hp : p.Unstarted) :
    Ensures (wholeBuild lake target options) (fun result => Announced options (.ok result))
      (fun e => Announced options (.error e)) [] p := by
  have h := phasewise_announced options
  refine h.wholeBuild lake target options (fun place _ _ hp => ?_)
    (fun _ _ time hp => hp.finish time) ?_
  · exact h.build (unitwise_announced options) lake place (options.onLake lake) hp
  · exact closed_of_unstarted ⟨hp.stage_eq, hp.waiting⟩

/-- **What a build announces.**  Whatever the collaborators answer and whenever the build is asked
to stop: once a build that began anew has returned, it has announced its phases block by block as
the progress that was shown last says of them, and then how it has ended; and directly before each
start of a phase it has shown that the phase is running. -/
theorem announced (lake : Workspace) (target : String) (options : BuildOptions)
    {start : Progress} (hstart : start.Unstarted) {answer : Except PipelineError BuildResult}
    (h : Reaches (Pipeline.run lake target options start) run (.done (answer, p))) :
    lastShown? run = some p ∧ Concluded options run p answer ∧ Heralded (events run) := by
  have hshown := ensures_iff.mp (ensures_shown_last lake target options start) run (answer, p) h
  have htold := ensures_iff.mp (ensures_announced lake target options hstart) run (answer, p) h
  rw [List.nil_append] at hshown htold
  cases answer with
  | ok result => exact ⟨hshown, htold⟩
  | error e => exact ⟨hshown, htold⟩

/-- The answers to a build whose build tool cannot be started. -/
def withoutTool : (q : Request) → q.Answer
  | .call (.build _ _ _) => .error (.notStarted "bazel" "not found")
  | q => success q

/-- A build without its build tool has three blocks, the last of which says why it has failed. -/
theorem announced_of_withoutTool :
    ∃ run e p, Reaches
        (Pipeline.run { root := "/lake" } "." {} (.initial { root := "/lake" } "." "main" 0)) run
        (.done (.error e, p)) ∧
      Concluded {} run p (.error e) ∧
      e.message = "Bazel build failed for target .: bazel failed to start: not found" ∧
      milestones run =
        [.phaseStarted .codegen, .phaseCompleted .codegen true none,
          .phaseStarted .validation, .phaseCompleted .validation true none,
          .phaseStarted .build, .phaseCompleted .build false (some e.message),
          .failed e.message] := by
  have hrun := reaches_replay withoutTool
    (Pipeline.run { root := "/lake" } "." {} (.initial { root := "/lake" } "." "main" 0))
  obtain ⟨-, hconcluded, -⟩ := announced _ _ _ (unstarted_initial _ _ _ _) hrun
  exact ⟨_, _, _, hrun, hconcluded, by decide, rfl⟩

end Pipeline
end ProtoBuild
