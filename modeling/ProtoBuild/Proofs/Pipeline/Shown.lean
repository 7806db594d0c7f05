import ProtoBuild.Proofs.Pipeline.Parts

/-!
# What a build shows only moves forward

A build shows its progress again and again: with every push, and once more within the result
of its end.  `shown` is the list of all that was shown in a run, and `Forward` says that it
moves forward, from the progress that the build began with up to the one that it has now.

All changes of a build but one move any progress forward, so `Forward` is kept by what the
parts are made of (`keeps_forward`).  The exception is where the units are added: a unit that
was there before would begin anew.  It is not there, since up to this place no part has
touched the units (`keeps_unbegun`), and a build begins without any.
-/

namespace ProtoBuild
namespace Pipeline

open Work Progress

/-- All that the listener was shown of the progress, also with the result. -/
def shown (run : Run) : List Progress := (events run).filterMap Event.shown?

variable {run more : Run} {p q start : Progress}

@[simp] theorem shown_append : shown (run ++ more) = shown run ++ shown more := by
  rw [shown, events_append, List.filterMap_append, shown, shown]

/-- What was shown, from the beginning on, moves forward, and the present progress is not behind
any of it. -/
structure Forward (start : Progress) (run : Run) (p : Progress) : Prop where
  wellTimed : p.WellTimed
  pairwise : (start :: shown run).Pairwise Progress.Onward
  behind : ∀ q ∈ start :: shown run, q.Onward p

namespace Forward

theorem nil (h : start.WellTimed) : Forward start [] start where
  wellTimed := h
  pairwise := List.pairwise_singleton _ _
  behind q hq := by
    rw [List.mem_singleton.mp hq]
    exact .refl start

theorem leads (h : Forward start run p) (hp : p.Leads q) : Forward start run q := by
  obtain ⟨hq, hto⟩ := hp.onward h.wellTimed
  exact ⟨hq, h.pairwise, fun d hd => (h.behind d hd).trans hto⟩

/-- What is not shown does not matter. -/
theorem silent (h : Forward start run p) (hmore : shown more = []) :
    Forward start (run ++ more) p where
  wellTimed := h.wellTimed
  pairwise := by
    rw [shown_append, hmore, List.append_nil]
    exact h.pairwise
  behind q hq := by
    rw [shown_append, hmore, List.append_nil] at hq
    exact h.behind q hq

/-- The present progress can be shown. -/
theorem shows (h : Forward start run p) (hmore : shown more = [p]) :
    Forward start (run ++ more) p where
  wellTimed := h.wellTimed
  pairwise := by
    rw [shown_append, hmore, ← List.cons_append]
    refine List.pairwise_append.mpr ⟨h.pairwise, List.pairwise_singleton _ _, fun q hq d hd => ?_⟩
    rw [List.mem_singleton.mp hd]
    exact h.behind q hq
  behind q hq := by
    rw [shown_append, hmore, ← List.cons_append, List.mem_append, List.mem_singleton] at hq
    rcases hq with hq | rfl
    · exact h.behind q hq
    · exact .refl q

end Forward

/-- A request that shows no progress adds nothing to what was shown. -/
theorem shown_request {k : Nat} {request : Request} (answer : request.Answer)
    (h : request.From k) : shown [⟨request, answer⟩] = [] := by
  cases request with
  | tell e =>
    have hnone : e.shown? = none := h
    simp [shown, events, eventOf?, hnone]
  | _ => rfl

/-- What the parts of a build are made of keeps what is shown moving forward. -/
theorem keeps_forward {k : Nat} : Keeps Grows (Request.From k) (Forward start) where
  modify _ hf h := h.leads (hf _)
  request _ answer hq h := h.silent (shown_request answer hq)
  push h := h.shows rfl

/-- Nothing has touched the units yet, and what was shown moves forward. -/
def Unbegun (start : Progress) (run : Run) (p : Progress) : Prop :=
  Forward start run p ∧ p.units = ∅

theorem keeps_unbegun {k : Nat} : Keeps Steady (Request.From k) (Unbegun start) where
  modify _ hf h := ⟨h.1.leads (hf.grows _), (hf.units_eq _).trans h.2⟩
  request _ answer hq h := ⟨h.1.silent (shown_request answer hq), h.2⟩
  push h := ⟨h.1.shows rfl, h.2⟩

/-! ## From the build phase on -/

theorem ensures_build_forward (lake : Workspace) (target : String) (options : RunOptions)
    (h : Unbegun start run p) :
    Ensures (build lake target options) (fun _ => Forward start) (fun _ => Forward start)
      run p := by
  unfold build
  extract_lets buildAll
  have hbuildAll : ∀ (run : Run) (p : Progress), Unbegun start run p →
      Ensures (buildAll ()) (fun _ => Forward start) (fun _ => Forward start) run p := by
    intro run p h
    have hresolve := ((made_resolveUnits lake options.mode target).steady
      (Nat.le_refl 4)).ensures keeps_unbegun h
    rw [ensures_bind]
    refine hresolve.mono (fun units run p h => ?_) fun _ _ _ h => h.1
    split
    · exact (made_skip .build _).grows.ensures (keeps_forward (k := 8)) h.1
    · simp only [ensures_bind, ensures_get, ensures_modify, ensures_push]
      refine ((made_buildUnits (k := 5) (Nat.le_refl 5) _ _ _ _).ensures keeps_forward ?_).mono
        (fun failed run p h => ?_) fun _ _ _ h => h
      · exact (h.1.leads (p.leads_insertAll h.2 _ _)).shows rfl
      · exact (made_endBuild _ _).grows.ensures (keeps_forward (k := 8)) h
  split
  · rw [ensures_bind]
    exact (((made_cleanCache lake).steady (Nat.le_refl 3)).ensures keeps_unbegun h).mono
      (fun _ run p h => hbuildAll run p h) fun _ _ _ h => h.1
  · exact hbuildAll run p h

/-- An error in a phase ends the build further on. -/
theorem Forward.aborted (h : Forward start run p) (phase : Phase) (e : PipelineError)
    (time : UInt64) :
    Forward start
      (run ++ [timed time, told (.phaseCompleted phase false (some e.message)),
        told (.updated (abortedIn phase time e p)), told (.failed e.message)])
      (abortedIn phase time e p) := by
  have hfailed := h.leads (p.leads_modifyPhase (fun r => r.leads_fail time e.message) phase)
  exact (hfailed.leads (leads_advance _ .failed)).shows rfl

theorem ensures_buildTarget_forward (lake : Workspace) (target : String)
    (options : BuildOptions) (h : Unbegun start run p) :
    Ensures (buildTarget lake target options) (fun _ => Forward start) (fun _ => Forward start)
      run p := by
  rw [buildTarget, ensures_bind]
  refine ((made_enter (k := 3) (by omega) .build).ensures keeps_unbegun h).mono
    (fun _ run p h => ?_) fun _ _ _ h => h.1
  cases lake.relative? target with
  | none => exact (made_abort (some .build) _).grows.ensures (keeps_forward (k := 8)) h.1
  | some place =>
    simp only [ensures_bind, ensures_tryCatch]
    refine (ensures_build_forward lake place (options.onLake lake) h).mono (fun _ run p h => ?_)
      fun e run p h => ?_
    · simp only [ensures_leave, ensures_pure]
      exact h.shows rfl
    · split
      · simp only [ensures_stop]
        exact (h.leads (p.leads_advance .cancelled)).shows rfl
      · simp only [ensures_abort_some]
        exact h.aborted .build e

/-- A build that has come through its phases ends further on, and its result shows the end. -/
theorem Forward.finished (h : Forward start run p) (time : UInt64) :
    Forward start
      (run ++ [told (.updated (p.advance .completed).1), timed time,
        told (.completed ((p.advance .completed).1.result time))])
      (p.advance .completed).1 := by
  have hended := h.leads (p.leads_advance .completed)
  have hpushed : Forward start (run ++ [told (.updated (p.advance .completed).1)])
      (p.advance .completed).1 := hended.shows rfl
  rw [← List.singleton_append, ← List.append_assoc]
  exact hpushed.shows rfl

/-- **What a build shows moves forward.**  A build that begins without units and with its lake
recorded has, when it returns, shown nothing but progress that moves forward from its
beginning to its end. -/
theorem ensures_forward (lake : Workspace) (target : String) (options : BuildOptions)
    (recorded : Workspace) (requested branch : String) (time : UInt64) :
    Ensures (wholeBuild lake target options)
      (fun _ => Forward (.initial recorded requested branch time))
      (fun _ => Forward (.initial recorded requested branch time)) []
      (.initial recorded requested branch time) := by
  have hstart : Unbegun (.initial recorded requested branch time) []
      (.initial recorded requested branch time) :=
    ⟨.nil (wellTimed_initial recorded requested branch time), rfl⟩
  unfold wholeBuild
  simp only [ensures_bind, ensures_modify]
  refine ((made_checkpoint (k := 0) (by omega)).ensures keeps_unbegun hstart).mono
    (fun _ run p h => ?_) fun _ _ _ h => h.1
  refine (ensures_call _).mpr fun answer => ?_
  cases answer with
  | error e =>
    exact (made_abort none _).grows.ensures (keeps_forward (k := 8)) (h.1.silent rfl)
  | ok _ =>
    simp only [ensures_bind]
    refine ((made_generate (k := 1) (by omega) lake).ensures keeps_unbegun
      ⟨h.1.silent rfl, h.2⟩).mono (fun _ run p h => ?_) fun _ _ _ h => h.1
    refine ((made_validate (k := 2) (by omega) lake options).ensures keeps_unbegun h).mono
      (fun _ run p h => ?_) fun _ _ _ h => h.1
    refine (ensures_buildTarget_forward lake target options h).mono (fun place run p h => ?_)
      fun _ _ _ h => h
    split
    · rw [ensures_bind]
      exact ((made_publishTarget (k := 6) (by omega) lake place).ensures keeps_forward h).mono
        (fun _ _ _ h => ensures_finish.mpr h.finished) fun _ _ _ h => h
    · exact ensures_finish.mpr h.finished

end Pipeline
end ProtoBuild
