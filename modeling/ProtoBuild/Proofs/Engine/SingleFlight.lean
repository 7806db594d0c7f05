import ProtoBuild.Proofs.Engine.Roster
import ProtoBuild.Proofs.Registry.Guard

/-!
# At most one build works on a resource

The registry says which operation is active on a resource, and the tokens say which builds
are to stop.  Neither of the two alone keeps builds apart: a resource that is freed by a
cancellation is given away while the old worker is still inside a tool, and a worker looks
at its token only now and then.  Together they do.  A worker whose token is not tripped
belongs to the operation that is active on its resource, and a resource has only one of
these (`single_flight`).

## Who may end an operation

A completion and a failure free a resource without telling anybody to stop.  So from
outside everything may happen but these two (`Outside.Regular`); a worker sends them last of
all, and then it calls nobody.  For the same reason names have to be new: a worker that ends
its own operation would otherwise free the resource of somebody else.

## What is carried along

`Manned` says that there is just one worker for each operation that was admitted, in the
order in which they were, and that each worker that has not returned is guarded in the
sense of `Registry.Guards`.  The first makes the second an invariant: the only messages
that spoil it for a worker carry its own name, and no other worker has this name.
-/

namespace ProtoBuild

/-- What may happen from outside where only a worker completes its operation or records its
failure, and only an admission starts a worker. -/
def Outside.Regular : Outside → Prop
  | .message (.complete _ _) | .message (.fail _ _) | .start _ => False
  | _ => True

/-- Whatever a worker is answered, it frees the resource of no other operation. -/
theorem Engine.Serves.guards {e e' : Engine} {job : Job} {q : Worker.Request}
    {answer : q.Answer} {name : OperationName} {token : Token} {resource : ResourceName}
    (h : e.Serves job q answer e') (hr : e.registry.Agrees)
    (hg : e.registry.Guards name token resource)
    (hx : Worker.Working job.name ⟨q, answer⟩ ∨
      Worker.Settling job.name ⟨q, answer⟩ ∧ name ≠ job.name) :
    e'.registry.Guards name token resource := by
  cases h with
  | change message now =>
    refine hg.handle hr _ now ?_ ?_
    · rintro result rfl
      rcases hx with hx | ⟨hx, hne⟩
      · cases hx
      · cases hx
        exact hne rfl
    · rintro text rfl
      rcases hx with hx | ⟨hx, hne⟩
      · cases hx
      · cases hx
        exact hne rfl
  | _ => exact hg

namespace Workshop

variable {s s' : Workshop} {i j : Nat} {v w : Hand} {resource : ResourceName}

/-- A worker works for a build that was asked for on a resource. -/
def WorksOn (s : Workshop) (w : Hand) (resource : ResourceName) : Prop :=
  ∃ o ∈ s.answers, o.name = w.job.name ∧ o.done = false ∧ o.resource = resource

/-- There is one worker for each operation that was admitted, and each worker that has not
returned is guarded. -/
structure Manned (s : Workshop) : Prop where
  names_eq : (s.workers.map fun w => w.job.name) = s.admitted
  guarded : ∀ w ∈ s.workers, w.rest ≠ .done () →
    ∃ resource, s.WorksOn w resource ∧ s.registry.Guards w.job.name w.job.token resource

theorem Manned.opened (retention : UInt64) : (opened retention).Manned where
  names_eq := rfl
  guarded _ hw := absurd hw List.not_mem_nil

theorem WorksOn.resource_eq {resource' : ResourceName} (hfresh : s.Fresh)
    (h : s.WorksOn w resource) (h' : s.WorksOn w resource') : resource = resource' := by
  obtain ⟨o, ho, hname, -, rfl⟩ := h
  obtain ⟨d, hd, hname', -, rfl⟩ := h'
  rw [hfresh.answer_eq ho hd (hname.trans hname'.symm)]

theorem Manned.staffed (h : s.Manned) : s.Staffed := h.names_eq

theorem Manned.index_eq (h : s.Manned) (hfresh : s.Fresh) (hv : s.workers[i]? = some v)
    (hw : s.workers[j]? = some w) (hname : v.job.name = w.job.name) : i = j :=
  h.staffed.index_eq hfresh hv hw hname

/-! ## What the steps do -/

theorem WorksOn.mono (h : s.WorksOn w resource) (hanswers : s.answers <+: s'.answers) :
    s'.WorksOn w resource := by
  obtain ⟨o, ho, hname⟩ := h
  exact ⟨o, hanswers.subset ho, hname⟩

theorem Manned.submit (h : s.Manned) (name : OperationName) (lake : Workspace)
    (resource : ResourceName) (target : String) (options : BuildOptions) (progress : Progress) :
    (s.submit name lake resource target options progress).Manned := by
  have hprefix := s.answers_submit name lake resource target options progress
  obtain ⟨hregistry, hcases⟩ := s.submit_cases name lake resource target options progress
  -- the workers that were there before are guarded as before
  have hold : ∀ w ∈ s.workers, w.rest ≠ .done () → ∃ resource',
      (s.submit name lake resource target options progress).WorksOn w resource' ∧
        (s.submit name lake resource target options progress).registry.Guards
          w.job.name w.job.token resource' := by
    intro w hw hrest
    obtain ⟨resource', hon, hg⟩ := h.guarded w hw hrest
    rw [hregistry]
    exact ⟨resource', hon.mono hprefix, hg.register progress _⟩
  rcases hcases with ⟨hopen, hanswers, hworkers⟩ | ⟨other, hanswers, hworkers, -⟩
  · refine ⟨h.staffed.submit .., fun w hw hrest => ?_⟩
    rw [hworkers, List.mem_append, List.mem_singleton] at hw
    rcases hw with hw | rfl
    · exact hold w hw hrest
    · refine ⟨resource, ⟨.pending name resource progress, ?_, rfl, rfl, rfl⟩, ?_⟩
      · rw [hanswers]
        exact List.mem_append_right _ (List.mem_singleton.mpr rfl)
      · exact Or.inr ⟨_, hopen, rfl, rfl⟩
  · refine ⟨h.staffed.submit .., fun w hw hrest => ?_⟩
    rw [hworkers] at hw
    exact hold w hw hrest

theorem Manned.works (h : s.Manned) (hs : s.Sound) (hfresh : s.Fresh) (hwork : s.Works i s') :
    s'.Manned := by
  obtain ⟨w, w', hw, hrest, hjob, hworkers, hanswers, q, answer, hserves, hcases⟩ :=
    hwork.step_cases hs
  have hon : ∀ {v resource}, s.WorksOn v resource → s'.WorksOn v resource :=
    fun hv => hv.mono (hanswers ▸ List.prefix_rfl)
  refine ⟨h.staffed.works hwork, fun v hv hvrest => ?_⟩
  obtain ⟨j, hj⟩ := List.mem_iff_getElem?.mp hv
  rw [hworkers] at hj
  by_cases hij : i = j
  · -- the worker that takes the step goes on, so it only works
    subst hij
    rw [List.getElem?_set_self (List.getElem?_eq_some_iff.mp hw).1] at hj
    obtain rfl := Option.some.inj hj
    rcases hcases with ⟨hworking, -⟩ | ⟨-, hdone⟩
    · obtain ⟨resource, hwon, hg⟩ := h.guarded w (List.mem_of_getElem? hw) hrest
      refine ⟨resource, ?_, ?_⟩
      · rw [WorksOn, hjob]
        exact hon hwon
      · rw [hjob]
        exact hserves.guards hs.agrees hg (Or.inl hworking)
    · exact absurd hdone hvrest
  · -- another worker has another name
    rw [List.getElem?_set_ne hij] at hj
    have hne : v.job.name ≠ w.job.name := fun hname =>
      hij (h.index_eq hfresh hj hw hname).symm
    obtain ⟨resource, hvon, hg⟩ := h.guarded v (List.mem_of_getElem? hj) hvrest
    refine ⟨resource, hon hvon, hserves.guards hs.agrees hg ?_⟩
    rcases hcases with ⟨hworking, -⟩ | ⟨hsettling, -⟩
    · exact Or.inl hworking
    · exact Or.inr ⟨hsettling, hne⟩

theorem Manned.message (h : s.Manned) (hs : s.Sound) {m : Registry.Message}
    (hm : Outside.Regular (.message m)) (now : UInt64) :
    ({ s with engine := (s.engine.send now m).1 } : Workshop).Manned where
  names_eq := h.names_eq
  guarded w hw hrest := by
    obtain ⟨resource, hon, hg⟩ := h.guarded w hw hrest
    refine ⟨resource, hon, hg.handle hs.agrees _ now ?_ ?_⟩
    · rintro result rfl
      exact hm
    · rintro text rfl
      exact hm

/-- **Every step keeps a workshop manned.** -/
theorem Manned.step (h : s.Manned) (hs : s.Sound) (hfresh : s.Fresh)
    (hstep : Step Outside.Regular s s') : s'.Manned := by
  cases hstep with
  | submit name lake resource target options progress => exact h.submit ..
  | work hwork => exact h.works hs hfresh hwork
  | message now hm => exact h.message hs hm now
  | closePool hm => exact ⟨h.names_eq, h.guarded⟩
  | start hm => exact absurd hm id

theorem Reachable.manned (h : Reachable Outside.Regular s) (hfresh : s.Fresh) : s.Manned := by
  obtain ⟨retention, hsteps⟩ := h
  induction hsteps with
  | refl => exact .opened retention
  | tail hsteps hstep ih =>
    have hbefore := hfresh.of_prefix hstep.answers_prefix
    exact (ih hbefore).step (Reachable.sound ⟨retention, hsteps⟩) hbefore hstep

/-! ## What it comes to -/

/-- Each worker belongs to a build that was admitted. -/
theorem Manned.exists_answer (h : s.Manned) (hw : w ∈ s.workers) :
    ∃ o ∈ s.answers, o.name = w.job.name ∧ o.done = false :=
  h.staffed.exists_answer hw

/-- A worker that has not returned and was not told to stop belongs to the operation that is
open on its resource. -/
theorem Manned.exists_open (h : s.Manned) (hfresh : s.Fresh) (hw : w ∈ s.workers)
    (hon : s.WorksOn w resource) (hrest : w.rest ≠ .done ())
    (htoken : s.registry.tripped w.job.token = false) :
    ∃ e, s.registry.Open w.job.name e ∧ e.operation.resource = resource ∧
      e.token = w.job.token := by
  obtain ⟨resource', hon', htripped | ⟨e, ho, he, hres⟩⟩ := h.guarded w hw hrest
  · rw [htoken] at htripped
    exact absurd htripped Bool.false_ne_true
  · exact ⟨e, ho, hres.trans (hon'.resource_eq hfresh hon), he⟩

/-- **At most one build works on a resource.**  Builds are asked for under new names, workers
take their steps, and operations are cancelled, deleted and swept away in any order.  Then
each worker works for one build that was admitted; and as long as it can still call a
collaborator and its token is not tripped, its operation is the one that is active on the
resource of this build, is registered as not done and carries this token.  So two workers
that can still call collaborators and were not told to stop work on different resources, and
for a build that was answered as aborted there is no worker at all. -/
theorem single_flight (h : Reachable Outside.Regular s) (hfresh : s.Fresh) :
    (∀ w ∈ s.workers, ∃ resource, s.WorksOn w resource) ∧
      (∀ w ∈ s.workers, ∀ resource, s.WorksOn w resource → w.MayCall →
        s.registry.tripped w.job.token = false →
          s.registry.active? resource = some w.job.name ∧
            ∃ e, s.registry.Open w.job.name e ∧ e.operation.resource = resource ∧
              e.token = w.job.token) ∧
      (∀ (i j : Nat) (v w : Hand) (resource : ResourceName), s.workers[i]? = some v →
        s.workers[j]? = some w → s.WorksOn v resource → s.WorksOn w resource →
        v.MayCall → w.MayCall → s.registry.tripped v.job.token = false →
        s.registry.tripped w.job.token = false → i = j) ∧
      ∀ o ∈ s.answers, o.done = true → ∀ w ∈ s.workers, w.job.name ≠ o.name := by
  have hmanned : s.Manned := h.manned hfresh
  have hactive : ∀ w ∈ s.workers, ∀ resource, s.WorksOn w resource → w.MayCall →
      s.registry.tripped w.job.token = false →
        s.registry.active? resource = some w.job.name ∧
          ∃ e, s.registry.Open w.job.name e ∧ e.operation.resource = resource ∧
            e.token = w.job.token := by
    intro w hw resource hon hcall htoken
    obtain ⟨e, ho, hres, he⟩ := hmanned.exists_open hfresh hw hon hcall.ne_done htoken
    exact ⟨h.sound.agrees.active_iff.mpr ⟨e, ho, hres⟩, e, ho, hres, he⟩
  refine ⟨fun w hw => ?_, hactive, ?_, ?_⟩
  · obtain ⟨o, ho, hname, hdone⟩ := hmanned.exists_answer hw
    exact ⟨o.resource, o, ho, hname, hdone, rfl⟩
  · intro i j v w resource hv hw hvon hwon hvcall hwcall hvtoken hwtoken
    obtain ⟨hvactive, -⟩ :=
      hactive v (List.mem_of_getElem? hv) resource hvon hvcall hvtoken
    obtain ⟨hwactive, -⟩ :=
      hactive w (List.mem_of_getElem? hw) resource hwon hwcall hwtoken
    exact hmanned.index_eq hfresh hv hw (Option.some.inj (hvactive.symm.trans hwactive))
  · intro o ho hdone w hw hname
    obtain ⟨d, hd, hdname, hopen⟩ := hmanned.exists_answer hw
    rw [hfresh.answer_eq hd ho (hdname.trans hname), hdone] at hopen
    exact absurd hopen (by simp)

/-- A build was cancelled, and a second one is asked for on the same resource. -/
def replaced : Workshop :=
  cancelled.submit ⟨"lakes/a/operations/op-2"⟩ {} ⟨"lakes/a"⟩ "." {} (.initial {} "." "main" 2)

theorem replaced_reachable : Reachable Outside.Regular replaced :=
  (cancelled_reachable trivial).step (.submit ..)

/-- Both workers can still call collaborators; the one that was not told to stop is the
second, and the resource is its own. -/
theorem single_flight_replaced :
    ∃ v w, replaced.workers = [v, w] ∧ v.MayCall ∧ w.MayCall ∧
      replaced.registry.tripped v.job.token = true ∧
      replaced.registry.tripped w.job.token = false ∧
      replaced.registry.active? ⟨"lakes/a"⟩ = some w.job.name := by
  obtain ⟨-, hactive, -⟩ := single_flight replaced_reachable (by decide)
  refine ⟨_, _, rfl, .ofJob _, .ofJob _, rfl, rfl, ?_⟩
  have hon : replaced.WorksOn (.ofJob ⟨⟨"lakes/a/operations/op-2"⟩, {}, ".", {}, ⟨1⟩⟩)
      ⟨"lakes/a"⟩ := ⟨_, List.mem_cons_of_mem _ List.mem_cons_self, rfl, rfl, rfl⟩
  exact (hactive _ (List.mem_cons_of_mem _ List.mem_cons_self) _ hon (.ofJob _) rfl).1

end Workshop
end ProtoBuild
