import ProtoBuild.Proofs.Engine.Knowledge
import ProtoBuild.Proofs.Engine.Roster
import ProtoBuild.Proofs.Engine.Settlement
import ProtoBuild.Proofs.Registry.Stored

/-!
# Whoever polls a build sees it move forward

What is found under the name of an operation is written by two: by the worker, who sends the
whole progress each time, and by the registry, which moves the stage when an operation is
cancelled or has failed.  Neither asks what the other has written.  And yet any two looks at
the same operation show progress that moves forward (`polled_onward`).

## Why nothing is overwritten

`Tracked` is the reason.  As long as an operation is open, what is stored is the last that its
worker knows, so what the worker sends next is further on.  Once somebody else has written to
it the operation is not open any more, and whatever the worker sends is refused.

The names have to be new.  A worker whose operation was deleted goes on for a while, and would
write into an operation that was admitted under the old name.
-/

namespace ProtoBuild

/-- What may happen from outside while builds are polled: operations are cancelled, recorded as
failed, deleted, swept away and shut down, and the pool is closed. -/
def Outside.Intervenes : Outside → Prop
  | .message (.cancel _) | .message (.fail _ _) | .message (.delete _) | .message .sweep
  | .message .shutdown | .closePool => True
  | _ => False

namespace Outside.Intervenes

variable {m : Registry.Message} {name : OperationName} {p : Progress}

theorem admitsNone (h : Intervenes (.message m)) : m.AdmitsNone := by
  rintro name resource p t rfl
  exact h

theorem not_brings (h : Intervenes (.message m)) : ¬ m.Brings name p := by
  rintro (_ | _)
  · exact h
  · exact h

end Outside.Intervenes

/-! ## What the messages of a worker do -/

namespace Worker

variable {m : Registry.Message} {name : OperationName} {p : Progress} {job : Job}

/-- A worker admits no operation and brings progress to its own operation only. -/
theorem sends_of_exchange
    (h : Working name ⟨.change m, ()⟩ ∨ Settling name ⟨.change m, ()⟩) :
    m.AdmitsNone ∧ ∀ n p, m.Brings n p → n = name := by
  rcases h with h | h
  · cases h with
    | update p =>
      refine ⟨fun _ _ _ _ => Registry.Message.noConfusion, fun n q hm => ?_⟩
      cases hm
      rfl
  · cases h with
    | complete result =>
      refine ⟨fun _ _ _ _ => Registry.Message.noConfusion, fun n q hm => ?_⟩
      cases hm
      rfl
    | fail text =>
      exact ⟨fun _ _ _ _ => Registry.Message.noConfusion, fun n q hm => nomatch hm⟩
    | cancel =>
      exact ⟨fun _ _ _ _ => Registry.Message.noConfusion, fun n q hm => nomatch hm⟩

/-- What fits the progress of an operation and is brought to it is further on. -/
theorem Fits.onward {now : Progress} (h : Fits name now m) (hm : m.Brings name p) :
    now.Onward p := by
  cases hm with
  | update p =>
    cases h with
    | update h => exact h
  | complete result =>
    cases h with
    | complete h _ => exact h

end Worker

/-- A worker that works stays in step with what is stored for its operation. -/
theorem Engine.Serves.inStep {e e' : Engine} {job : Job} {q : Worker.Request}
    {answer : q.Answer} {d' : Entry} {run : Worker.Run}
    {next : q.Answer → Program Worker.interface Unit} (h : e.Serves job q answer e')
    (hrun : Program.Reaches (Worker.run job) run (.ask q next))
    (hworking : Worker.Working job.name ⟨q, answer⟩) (ho : e'.registry.Open job.name d') :
    ∃ d, e.registry.Open job.name d ∧ ∀ first, first.IsNew →
      Worker.InStep first run d.operation.progress →
        Worker.InStep first (run ++ [⟨q, answer⟩]) d'.operation.progress := by
  cases h with
  | change m now =>
    cases hworking with
    | update p =>
      obtain ⟨d, hd, hstored⟩ := Registry.Open.before_update ho
      refine ⟨d, hd, fun first hnew hstep => ?_⟩
      have honward := (hstep.fits hnew hrun).onward (.update p)
      rw [hstored honward.stage]
      refine hstep.learns rfl fun hnone => ?_
      rcases Worker.fail_or_known hrun with ⟨⟨text, hfail⟩, -⟩ | hknown
      · exact nomatch hfail
      · exact absurd hnone hknown
  | progress =>
    refine ⟨d', ho, fun first _ hstep => ?_⟩
    have hprogress : e.registry.progress? job.name = some d'.operation.progress := by
      rw [Registry.progress?, Registry.get?, ho.1]
      rfl
    rw [hprogress]
    refine hstep.learns rfl fun hnone => ?_
    rw [← hstep.last, hnone]
    rfl
  | place => exact ⟨d', ho, fun _ _ hstep => hstep.silent rfl⟩
  | call c answer => exact ⟨d', ho, fun _ _ hstep => hstep.silent rfl⟩
  | now time => exact ⟨d', ho, fun _ _ hstep => hstep.silent rfl⟩
  | isCancelled => exact ⟨d', ho, fun _ _ hstep => hstep.silent rfl⟩

namespace Workshop

open Program

variable {s s' : Workshop} {i : Nat} {w : Hand} {name : OperationName} {e d : Entry}
  {o o' : Operation}

/-- All builds were asked for with the progress of a new build. -/
def AskedAnew (s : Workshop) : Prop := ∀ o ∈ s.answers, o.progress.IsNew

/-- What is known to the registry was admitted, and what is open there is in step with its
worker. -/
structure Tracked (s : Workshop) : Prop where
  staffed : s.Staffed
  listed : ∀ {name e}, s.registry.entryOf? name = some e → name ∈ s.admitted
  current : ∀ {name e}, s.registry.Open name e → ∃ o ∈ s.answers, ∃ w ∈ s.workers,
    w.job.name = name ∧ Worker.InStep o.progress w.past e.operation.progress

theorem AskedAnew.of_prefix (h : s'.AskedAnew) (hanswers : s.answers <+: s'.answers) :
    s.AskedAnew :=
  fun o ho => h o (hanswers.subset ho)

theorem Tracked.opened (retention : UInt64) : (opened retention).Tracked where
  staffed := .opened retention
  listed he := nomatch he
  current ho := nomatch ho.1

/-- With new names, the worker that is in step with an open operation is the one that works for
it. -/
theorem Tracked.inStep (h : s.Tracked) (hfresh : s.Fresh) (hnew : s.AskedAnew)
    (hw : s.workers[i]? = some w) (ho : s.registry.Open w.job.name e) :
    ∃ first : Progress, first.IsNew ∧ Worker.InStep first w.past e.operation.progress := by
  obtain ⟨o, ho', v, hv, hname, hstep⟩ := h.current ho
  obtain ⟨j, hj⟩ := List.mem_iff_getElem?.mp hv
  obtain rfl := h.staffed.index_eq hfresh hj hw hname
  obtain rfl := Option.some.inj (hj.symm.trans hw)
  exact ⟨o.progress, hnew o ho', hstep⟩

/-! ## One step -/

theorem Works.onward (h : s.Tracked) (hs : s.Sound) (hfresh : s.Fresh) (hnew : s.AskedAnew)
    (hwork : s.Works i s') (he : s'.registry.entryOf? name = some e) :
    ∃ d, s.registry.entryOf? name = some d ∧ d.operation.progress.Onward e.operation.progress := by
  obtain ⟨w, q, next, answer, e', hw, -, hrun, hserves, rfl⟩ := hwork.exists_run hs
  cases hserves with
  | change m now =>
    obtain ⟨hadmits, hown⟩ := Worker.sends_of_exchange
      ((Worker.step_cases hrun ()).2.imp And.left And.left)
    refine Registry.exists_entry_before hadmits (fun d p ho hm => ?_) he
    obtain rfl := hown name p hm
    obtain ⟨first, hfirst, hstep⟩ := h.inStep hfresh hnew hw ho
    exact (hstep.fits hfirst hrun).onward hm
  | _ => exact ⟨e, he, .refl _⟩

/-- What was in step stays so with another worker, or with this one after its step. -/
theorem Tracked.works (h : s.Tracked) (hs : s.Sound) (hfresh : s.Fresh) (hnew : s.AskedAnew)
    (hwork : s.Works i s') : s'.Tracked where
  staffed := h.staffed.works hwork
  listed he := by
    obtain ⟨d, hd, -⟩ := hwork.onward h hs hfresh hnew he
    obtain ⟨w, q, next, answer, e', -, -, -, -, rfl⟩ := hwork.exists_run hs
    exact h.listed hd
  current {name e} ho := by
    obtain ⟨w, q, next, answer, e', hw, -, hrun, hserves, rfl⟩ := hwork.exists_run hs
    have hlt : i < s.workers.length := (List.getElem?_eq_some_iff.mp hw).1
    have hcases := (Worker.step_cases hrun answer).2
    by_cases hname : name = w.job.name
    · subst hname
      rcases hcases with ⟨hworking, -⟩ | ⟨hsettling, -⟩
      · obtain ⟨d, hd, hstays⟩ := hserves.inStep hrun hworking ho
        obtain ⟨o, ho', v, hv, hvname, hstep⟩ := h.current hd
        obtain ⟨j, hj⟩ := List.mem_iff_getElem?.mp hv
        obtain rfl := h.staffed.index_eq hfresh hj hw hvname
        obtain rfl := Option.some.inj (hj.symm.trans hw)
        exact ⟨o, ho', _, List.mem_set hlt _, rfl, hstays o.progress (hnew o ho') hstep⟩
      · exact absurd ho (hserves.not_open_of_settling hsettling e)
    · have hentry : e'.registry.entryOf? name = s.registry.entryOf? name := by
        rcases hcases with ⟨hworking, -⟩ | ⟨hsettling, -⟩
        · exact hserves.entryOf?_of_working hworking hname
        · exact hserves.entryOf?_of_settling hsettling hname
      obtain ⟨o, ho', v, hv, hvname, hstep⟩ := h.current ⟨hentry ▸ ho.1, ho.2⟩
      obtain ⟨j, hj⟩ := List.mem_iff_getElem?.mp hv
      refine ⟨o, ho', v, List.mem_iff_getElem?.mpr ⟨j, ?_⟩, hvname, hstep⟩
      rw [List.getElem?_set_ne, hj]
      rintro rfl
      obtain rfl := Option.some.inj (hj.symm.trans hw)
      exact hname hvname.symm

/-- What is in step stays so when others come. -/
theorem Tracked.current_mono (h : s.Tracked) (hanswers : s.answers <+: s'.answers)
    (hworkers : s.workers ⊆ s'.workers) (ho : s.registry.Open name e) :
    ∃ o ∈ s'.answers, ∃ w ∈ s'.workers,
      w.job.name = name ∧ Worker.InStep o.progress w.past e.operation.progress := by
  obtain ⟨o, ho', w, hw, hstep⟩ := h.current ho
  exact ⟨o, hanswers.subset ho', w, hworkers hw, hstep⟩

theorem Tracked.submit (h : s.Tracked) (name : OperationName) (lake : Workspace)
    (resource : ResourceName) (target : String) (options : BuildOptions) (progress : Progress) :
    (s.submit name lake resource target options progress).Tracked := by
  have hprefix := s.answers_submit name lake resource target options progress
  obtain ⟨hregistry, ⟨hopen, hanswers, hworkers⟩ | ⟨other, -, hworkers, hsame⟩⟩ :=
    s.submit_cases name lake resource target options progress
  · have hother : ∀ m, m ≠ name →
        (s.submit name lake resource target options progress).registry.entryOf? m =
          s.registry.entryOf? m := by
      intro m hm
      rw [hregistry]
      exact Registry.entryOf?_register_of_ne hm resource progress _
    have hpending : Operation.pending name resource progress ∈
        (s.submit name lake resource target options progress).answers := by
      rw [hanswers]
      exact List.mem_append_right _ (List.mem_singleton_self _)
    refine ⟨h.staffed.submit .., fun {m e} he => ?_, fun {m e} ho => ?_⟩
    · by_cases hm : m = name
      · subst hm
        exact List.mem_map.mpr ⟨_, List.mem_filter.mpr ⟨hpending, rfl⟩, rfl⟩
      · exact admitted_subset hprefix (h.listed (hother m hm ▸ he))
    · by_cases hm : m = name
      · -- the new operation has the progress that its worker will be told
        subst hm
        rw [ho.unique hopen]
        refine ⟨_, hpending, .ofJob ⟨m, lake, target, options, ⟨s.engine.nextToken⟩⟩, ?_, rfl,
          .nil progress⟩
        rw [hworkers]
        exact List.mem_append_right _ (List.mem_singleton_self _)
      · refine h.current_mono hprefix ?_ ⟨hother m hm ▸ ho.1, ho.2⟩
        rw [hworkers]
        exact List.subset_append_left _ _
  · refine ⟨h.staffed.submit .., fun he => admitted_subset hprefix (h.listed (hsame ▸ he)),
      fun ho => h.current_mono hprefix ?_ (hsame ▸ ho)⟩
    rw [hworkers]
    exact List.Subset.refl _

theorem Tracked.message (h : s.Tracked) {m : Registry.Message}
    (hm : Outside.Intervenes (.message m)) (now : UInt64) :
    ({ s with engine := (s.engine.send now m).1 } : Workshop).Tracked where
  staffed := h.staffed
  listed he := by
    obtain ⟨d, hd, -⟩ :=
      Registry.exists_entry_before hm.admitsNone (fun _ _ _ hb => absurd hb hm.not_brings) he
    exact h.listed hd
  current {name e} ho := by
    refine h.current (Registry.Open.before hm.admitsNone ?_ ho)
    rintro p rfl
    exact hm

/-- **Every step keeps a workshop tracked.** -/
theorem Tracked.step (h : s.Tracked) (hs : s.Sound) (hfresh : s.Fresh) (hnew : s.AskedAnew)
    (hstep : Step Outside.Intervenes s s') : s'.Tracked := by
  cases hstep with
  | submit name lake resource target options progress => exact h.submit ..
  | work hwork => exact h.works hs hfresh hnew hwork
  | message now hm => exact h.message hm now
  | closePool hm => exact ⟨h.staffed, h.listed, h.current⟩
  | start hm => exact absurd hm id

theorem Reachable.tracked (h : Reachable Outside.Intervenes s) (hfresh : s.Fresh)
    (hnew : s.AskedAnew) : s.Tracked := by
  obtain ⟨retention, hsteps⟩ := h
  induction hsteps with
  | refl => exact .opened retention
  | tail hsteps hstep ih =>
    have hfresh' := hfresh.of_prefix hstep.answers_prefix
    have hnew' := hnew.of_prefix hstep.answers_prefix
    exact (ih hfresh' hnew').step (Reachable.sound ⟨retention, hsteps⟩) hfresh' hnew' hstep

/-- **One step moves the progress of an operation forward.**  If it is there after the step, it
was there before. -/
theorem Step.onward (h : s.Tracked) (hs : s.Sound) (hfresh : s'.Fresh) (hnew : s'.AskedAnew)
    (hstep : Step Outside.Intervenes s s') (hname : name ∈ s.admitted)
    (he : s'.registry.entryOf? name = some e) :
    ∃ d, s.registry.entryOf? name = some d ∧ d.operation.progress.Onward e.operation.progress := by
  have hfresh' := hfresh.of_prefix hstep.answers_prefix
  have hnew' := hnew.of_prefix hstep.answers_prefix
  cases hstep with
  | submit m lake resource target options progress =>
    have hne : name ≠ m := by
      rintro rfl
      exact hfresh.ne_of_submit hname
    obtain ⟨hregistry, -⟩ := s.submit_cases m lake resource target options progress
    rw [hregistry, Registry.entryOf?_register_of_ne hne] at he
    exact ⟨e, he, .refl _⟩
  | work hwork => exact hwork.onward h hs hfresh' hnew' he
  | message now hm =>
    exact Registry.exists_entry_before hm.admitsNone
      (fun _ _ _ hb => absurd hb hm.not_brings) he
  | closePool hm => exact ⟨e, he, .refl _⟩
  | start hm => exact absurd hm id

/-- **Whoever polls a build sees it move forward.**  Builds are asked for anew under new names,
workers take their steps, and operations are cancelled, recorded as failed, deleted and swept
away in any order.  If the same operation is looked at twice, the stage of the second look can
be reached from that of the first; a phase that was over is as it was, and the lines of its
log are the first of those that it has now; times that were known are what they were; each
unit that was there still is, and its status has moved along the edges; and what was asked for
has not changed. -/
theorem polled_onward (h : Reachable Outside.Intervenes s)
    (hsteps : Relation.ReflTransGen (Step Outside.Intervenes) s s') (hfresh : s'.Fresh)
    (hnew : s'.AskedAnew) (ho : s.registry.get? name = some o)
    (ho' : s'.registry.get? name = some o') : o.progress.Onward o'.progress := by
  obtain ⟨e, he, rfl⟩ := Registry.get?_eq_some_iff.mp ho
  obtain ⟨e', he', rfl⟩ := Registry.get?_eq_some_iff.mp ho'
  clear ho ho'
  -- an operation that was known once keeps its name for itself, so it was there all the time
  have hprefix := answers_prefix_of_steps hsteps
  have hname : name ∈ s.admitted :=
    (h.tracked (hfresh.of_prefix hprefix) (hnew.of_prefix hprefix)).listed he
  clear hprefix
  induction hsteps generalizing e' with
  | refl =>
    rw [he] at he'
    rw [Option.some.inj he']
    exact .refl _
  | @tail t s' hsteps hstep ih =>
    have hfresh' := hfresh.of_prefix hstep.answers_prefix
    have hnew' := hnew.of_prefix hstep.answers_prefix
    have ht : Reachable Outside.Intervenes t := h.steps hsteps
    obtain ⟨d, hd, hto⟩ := hstep.onward (ht.tracked hfresh' hnew') ht.sound hfresh hnew
      (admitted_subset (answers_prefix_of_steps hsteps) hname) he'
    exact (ih hfresh' hnew' d hd).trans hto

/-- The one build that was asked for is a new one, whatever its worker has done since. -/
theorem askedAnew_of_asked (h : s.answers = asked.answers) : s.AskedAnew := by
  intro o ho
  rw [h] at ho
  obtain rfl := List.mem_singleton.mp ho
  exact ⟨{}, ".", "main", 0, rfl⟩

/-- A build is looked at while it generates its files, and once more after it was cancelled and
its worker has gone on for a while. -/
theorem polled_onward_of_interrupted :
    ∃ o o', (asked.driven 0 10).registry.get? ⟨"lakes/a/operations/op-1"⟩ = some o ∧
      ((interrupted 10).driven 0 3).registry.get? ⟨"lakes/a/operations/op-1"⟩ = some o' ∧
      o.progress.stage = .generating ∧ o'.progress.stage = .cancelled ∧
      o.progress.Onward o'.progress := by
  have hbefore : ((asked.driven 0 10).registry.get? ⟨"lakes/a/operations/op-1"⟩).map
      (fun o => o.progress.stage) = some .generating := by decide
  have hafter : (((interrupted 10).driven 0 3).registry.get? ⟨"lakes/a/operations/op-1"⟩).map
      (fun o => o.progress.stage) = some .cancelled := by decide
  obtain ⟨o, ho, hstage⟩ := Option.map_eq_some_iff.mp hbefore
  obtain ⟨o', ho', hstage'⟩ := Option.map_eq_some_iff.mp hafter
  exact ⟨o, o', ho, ho', hstage, hstage', polled_onward
    (asked_reachable.steps (steps_driven asked 0 10))
    (.trans (.single (step_interrupted trivial 10)) (steps_driven _ 0 3)) (by decide)
    (askedAnew_of_asked rfl) ho ho'⟩

end Workshop
end ProtoBuild
