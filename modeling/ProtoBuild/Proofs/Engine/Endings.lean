import ProtoBuild.Proofs.Engine.Polling

/-!
# How an operation that has ended is shown

An operation ends with a result, with a failure or because it was cancelled, and beside this
its progress is shown in a final stage.  Whoever polls expects that the two say the same: a
result and a completed build, a failure and a failed one, a cancellation and a cancelled one.

The first two always go together, and the third almost (`shown_as_ended`).  A worker first
shows its build as over and then sends the message that ends the operation, and these are two
steps.  If the operation is cancelled between them, the end is a cancellation, but a final
stage is never left, and so the build goes on being shown as what it was before.
`cancelled_shown_completed` is an operation that has come to such an end.

## Why there is no other exception

A cancellation moves the stage if the stage is not final.  What is stored for an open operation
is the last that its worker knows (`Tracked`), so if the stage is final, the worker itself has
shown its build in it.
-/

namespace ProtoBuild

/-- What may happen from outside where only a worker records the failure of its operation. -/
def Outside.Withdraws : Outside → Prop
  | .message (.cancel _) | .message (.delete _) | .message .sweep | .message .shutdown
  | .closePool => True
  | _ => False

theorem Outside.Withdraws.intervenes {x : Outside} (h : x.Withdraws) : x.Intervenes := by
  cases x with
  | message m =>
    cases m with
    | cancel name => trivial
    | delete name => trivial
    | sweep => trivial
    | shutdown => trivial
    | _ => exact absurd h id
  | closePool => trivial
  | start job => exact absurd h id

/-- A cancellation moves the stage, or the build was already known to be over. -/
theorem Worker.InStep.advance_cancelled {first now : Progress} {run : Worker.Run}
    (h : Worker.InStep first run now) (hnew : first.IsNew) :
    (now.advance .cancelled).1.stage = .cancelled ∨
      (now.advance .cancelled).1 = now ∧ now ∈ Worker.known run ∧ now.isFinal = true := by
  cases hfinal : now.stage.isFinal with
  | false => exact Or.inl (Progress.stage_advance_of_isFinal hfinal rfl)
  | true =>
    have hlast := h.last
    cases hknown : (Worker.known run).getLast? with
    | none =>
      -- a build that has just been asked for is not over
      rw [hknown] at hlast
      obtain ⟨lake, target, branch, time, rfl⟩ := hnew
      rw [← hlast] at hfinal
      exact absurd hfinal Bool.false_ne_true
    | some p =>
      rw [hknown] at hlast
      obtain rfl : p = now := hlast
      unfold Progress.advance
      split
      · exact Or.inl rfl
      · exact Or.inr ⟨rfl, List.mem_of_getLast? hknown, hfinal⟩

namespace Workshop

open Program

variable {s s' : Workshop} {may : Outside → Prop} {name : OperationName} {o : Operation}
  {d e : Entry} {w : Hand} {now : UInt64} {m : Registry.Message}

/-- The worker of an operation has shown a progress, and the build is over in it. -/
def ShownOver (s : Workshop) (name : OperationName) (p : Progress) : Prop :=
  p.isFinal = true ∧ ∃ w ∈ s.workers, w.job.name = name ∧ p ∈ Worker.known w.past

/-- The stage of an operation that is done belongs to its end, or it was cancelled when its
worker had already shown it as over. -/
structure Fitting (s : Workshop) (name : OperationName) (o : Operation) : Prop where
  result : o.result.isSome = true → o.progress.stage = .completed
  internal : ∀ f, o.fault = some f → f.code = .internal → o.progress.stage = .failed
  cancelled : ∀ f, o.fault = some f → f.code = .cancelled →
    o.progress.stage = .cancelled ∨ s.ShownOver name o.progress

/-- All operations that are done are fitting. -/
def Concluded (s : Workshop) : Prop :=
  ∀ name e, s.registry.entryOf? name = some e → e.operation.done = true →
    s.Fitting name e.operation

theorem Fitting.of_step (h : s.Fitting name o) (hstep : Step may s s') : s'.Fitting name o where
  result := h.result
  internal := h.internal
  cancelled f hf hcode := by
    refine (h.cancelled f hf hcode).imp id fun ⟨hfinal, w, hw, hname, hknown⟩ => ⟨hfinal, ?_⟩
    obtain ⟨w', hw', hjob, hpast⟩ := hstep.exists_worker hw
    refine ⟨w', hw', by rw [hjob, hname], ?_⟩
    exact (hpast.filterMap _).subset hknown

/-- What ends an open operation leaves it fitting, if a result and a failure fit what its worker
has shown. -/
theorem Tracked.fitting_of_ends (h : s.Tracked) (hs : s.Sound) (hnew : s.AskedAnew)
    (ho : s.registry.Open name d) (hends : Registry.Ends name d now m e)
    (hfits : m ≠ .cancel name → m ≠ .shutdown → Worker.Fits name d.operation.progress m) :
    s.Fitting name e.operation := by
  obtain ⟨hresult, hfault⟩ := (hs.agrees.coherent ho.1).unsettled ho.2
  cases hends with
  | complete result =>
    have hstage : result.progress.stage = .completed := by
      cases hfits (by simp) (by simp) with
      | complete _ hstage => exact hstage
    exact ⟨fun _ => hstage, fun f hf => absurd (hfault.symm.trans hf) (by simp),
      fun f hf => absurd (hfault.symm.trans hf) (by simp)⟩
  | fail text =>
    have hstage : (d.operation.progress.advance .failed).1.stage = .failed := by
      cases hfits (by simp) (by simp) with
      | fail hstage => exact hstage
    refine ⟨fun hsome => ?_, fun _ _ _ => hstage, fun f hf hcode => ?_⟩
    · exact absurd (hresult ▸ hsome) (by simp)
    · obtain rfl := Option.some.inj hf
      exact nomatch hcode
  | cancel hm =>
    obtain ⟨o, ho', w, hw, hname, hstep⟩ := h.current ho
    refine ⟨fun hsome => ?_, fun f hf hcode => ?_, fun _ _ _ => ?_⟩
    · exact absurd (hresult ▸ hsome) (by simp)
    · obtain rfl := Option.some.inj hf
      exact nomatch hcode
    · refine (hstep.advance_cancelled (hnew o ho')).imp id fun ⟨hsame, hknown, hfinal⟩ => ?_
      rw [Entry.ended]
      dsimp only
      rw [hsame]
      exact ⟨hfinal, w, hw, hname, hknown⟩

/-- **One step keeps what is done fitting.** -/
theorem Concluded.step (h : s.Concluded) (htracked : s.Tracked) (hs : s.Sound)
    (hfresh : s.Fresh) (hnew : s.AskedAnew) (hstep : Step Outside.Withdraws s s') :
    s'.Concluded := by
  intro name e he hdone
  refine Fitting.of_step ?_ hstep
  cases hstep with
  | submit m lake resource target options progress =>
    obtain ⟨hregistry, -⟩ := s.submit_cases m lake resource target options progress
    have hadmitted : (s.registry.handle 0 0
        (.register m resource progress ⟨s.engine.nextToken⟩)).1.entryOf? name = some e :=
      hregistry ▸ he
    rcases Registry.done_cases hdone hadmitted with he | ⟨d, -, hends⟩
    · exact h name e he hdone
    · cases hends with
      | cancel hm => exact absurd hm (by simp)
  | @work _ i hwork =>
    obtain ⟨w, q, next, answer, e', hw, -, hrun, hserves, rfl⟩ := hwork.exists_run hs
    cases hserves with
    | change m now =>
      rcases Registry.done_cases hdone he with he | ⟨d, ho, hends⟩
      · exact h name e he hdone
      · refine htracked.fitting_of_ends hs hnew ho hends fun hcancel hshutdown => ?_
        have hname : name = w.job.name := by
          rcases (Worker.step_cases hrun ()).2 with ⟨hworking, -⟩ | ⟨hsettling, -⟩
          · cases hworking with
            | update p =>
              cases hends with
              | cancel hm => exact absurd hm (by simp)
          · cases hends with
            | complete result =>
              cases hsettling
              rfl
            | fail text =>
              cases hsettling
              rfl
            | cancel hm => exact absurd hm (by simp [hcancel, hshutdown])
        subst hname
        obtain ⟨first, hfirst, hstep⟩ := htracked.inStep hfresh hnew hw ho
        exact hstep.fits hfirst hrun
    | _ => exact h name e he hdone
  | @message m now hm =>
    rcases Registry.done_cases hdone he with he | ⟨d, ho, hends⟩
    · exact h name e he hdone
    · refine htracked.fitting_of_ends hs hnew ho hends fun hcancel hshutdown => ?_
      cases hends with
      | complete result => exact absurd hm id
      | fail text => exact absurd hm id
      | cancel hm => exact absurd hm (by simp [hcancel, hshutdown])
  | closePool hm => exact h name e he hdone
  | start hm => exact absurd hm id

theorem Reachable.concluded (h : Reachable Outside.Withdraws s) (hfresh : s.Fresh)
    (hnew : s.AskedAnew) : s.Concluded := by
  obtain ⟨retention, hsteps⟩ := h
  induction hsteps with
  | refl => exact fun _ _ he => nomatch he
  | @tail t s hsteps hstep ih =>
    have hfresh' := hfresh.of_prefix hstep.answers_prefix
    have hnew' := hnew.of_prefix hstep.answers_prefix
    have ht : Reachable Outside.Withdraws t := ⟨retention, hsteps⟩
    have htracked := (ht.mono fun _ => Outside.Withdraws.intervenes).tracked hfresh' hnew'
    exact (ih hfresh' hnew').step htracked ht.sound hfresh' hnew' hstep

/-- **An operation is shown as it has ended.**  Builds are asked for anew under new names,
workers take their steps, and operations are cancelled, deleted and swept away in any order.
Then an operation with a result is shown as completed, one that has failed as failed, and one
that was cancelled as cancelled, unless its worker had already shown that very progress with
its build being over. -/
theorem shown_as_ended (h : Reachable Outside.Withdraws s) (hfresh : s.Fresh)
    (hnew : s.AskedAnew) (ho : s.registry.get? name = some o) (hdone : o.done = true) :
    s.Fitting name o := by
  obtain ⟨e, he, rfl⟩ := Registry.get?_eq_some_iff.mp ho
  exact h.concluded hfresh hnew name e he hdone

/-- A build that runs to its end without being disturbed has a result and is shown as
completed. -/
theorem shown_as_ended_of_driven :
    ∃ o, (asked.driven 0 30).registry.get? ⟨"lakes/a/operations/op-1"⟩ = some o ∧
      o.result.isSome = true ∧ o.progress.stage = .completed := by
  have hend : ((asked.driven 0 30).registry.get? ⟨"lakes/a/operations/op-1"⟩).map
      (fun o => (o.done, o.result.isSome)) = some (true, true) := by decide
  obtain ⟨o, ho, heq⟩ := Option.map_eq_some_iff.mp hend
  obtain ⟨hdone, hresult⟩ := Prod.mk.inj heq
  have hfitting := shown_as_ended (asked_reachable.steps (steps_driven asked 0 30)) (by decide)
    (askedAnew_of_asked rfl) ho hdone
  exact ⟨o, ho, hresult, hfitting.result hresult⟩

/-- An operation that is cancelled after its worker has shown the build as completed, and before
it has sent the result: it has ended as cancelled and is shown as completed. -/
theorem cancelled_shown_completed :
    ∃ s o, Reachable Outside.Withdraws s ∧ s.Fresh ∧ s.AskedAnew ∧
      s.registry.get? ⟨"lakes/a/operations/op-1"⟩ = some o ∧ o.done = true ∧ o.result = none ∧
      o.fault.map Fault.code = some .cancelled ∧ o.progress.stage = .completed := by
  have hend : ((interrupted 28).registry.get? ⟨"lakes/a/operations/op-1"⟩).map
      (fun o => (o.done, o.result.isNone, o.fault.map Fault.code, o.progress.stage)) =
        some (true, true, some .cancelled, .completed) := by decide
  obtain ⟨o, ho, heq⟩ := Option.map_eq_some_iff.mp hend
  simp only [Prod.mk.injEq, Option.isNone_iff_eq_none] at heq
  exact ⟨interrupted 28, o, (asked_reachable.steps (steps_driven asked 0 28)).step
    (step_interrupted trivial 28), by decide, askedAnew_of_asked rfl, ho, heq⟩

end Workshop
end ProtoBuild
