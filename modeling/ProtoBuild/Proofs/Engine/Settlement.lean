import ProtoBuild.Proofs.Engine.Workshop

/-!
# A worker that returns has settled its operation

A worker has several ways to end: the pool is closed before it gets a place, its operation
is not known any more, or its build is completed, cancelled or fails.  In each of them the
registry may refuse its last message, because somebody else has ended or deleted the
operation meanwhile, and the worker does not look at the answer.

## Why the answer need not be looked at

A refusal says just what the worker wants: a registry refuses to end an operation only if
there is none under that name that has not ended.  So after a last message, accepted or not,
no operation is open under the name (`not_open_complete`, `not_open_fail`,
`not_open_cancel`), and the agreement of the two maps turns this into the rest: what is
still known under the name has ended with a result or a fault, and no resource is held.

That a worker sends a last message at all, and nothing after it, is `Worker.step_cases`.
-/

namespace ProtoBuild

namespace Registry

variable {r : Registry} {name : OperationName}

/-- Nothing is left to do under a name: what is known under it has ended, with a result or a
fault, and no resource is busy because of it. -/
structure Over (r : Registry) (name : OperationName) : Prop where
  settled : ∀ e, r.entryOf? name = some e → e.operation.Settled
  released : ∀ resource, r.active? resource ≠ some name

theorem Agrees.over_of_not_open (h : r.Agrees) (hn : ∀ e, ¬ r.Open name e) : r.Over name where
  settled e he := by
    refine (h.coherent he).settled ?_
    cases hd : e.operation.done with
    | true => rfl
    | false => exact absurd ⟨he, hd⟩ (hn e)
  released _ := h.active?_ne hn

end Registry

/-! ## What an exchange of a worker does to the registry -/

namespace Engine.Serves

variable {e e' : Engine} {job : Job} {q : Worker.Request} {answer : q.Answer} {m : OperationName}

/-- What a worker sends while it works changes no entry but its own. -/
theorem entryOf?_of_working (h : e.Serves job q answer e')
    (hw : Worker.Working job.name ⟨q, answer⟩) (hm : m ≠ job.name) :
    e'.registry.entryOf? m = e.registry.entryOf? m := by
  cases h with
  | change message now =>
    cases hw with
    | update p => exact Registry.entryOf?_update_of_ne hm p
  | _ => rfl

/-- The last message of a worker changes no entry but its own. -/
theorem entryOf?_of_settling (h : e.Serves job q answer e')
    (hs : Worker.Settling job.name ⟨q, answer⟩) (hm : m ≠ job.name) :
    e'.registry.entryOf? m = e.registry.entryOf? m := by
  cases h with
  | change message now =>
    cases hs with
    | complete result => exact Registry.entryOf?_complete_of_ne hm result now
    | fail text => exact Registry.entryOf?_fail_of_ne hm text now
    | cancel => exact Registry.entryOf?_cancel_of_ne hm now
  | _ => rfl

/-- After the last exchange of a worker no operation is open under its name. -/
theorem not_open_of_settling (h : e.Serves job q answer e')
    (hs : Worker.Settling job.name ⟨q, answer⟩) : ∀ d, ¬ e'.registry.Open job.name d := by
  cases h with
  | change message now =>
    cases hs with
    | complete result => exact Registry.not_open_complete _ _ result now
    | fail text => exact Registry.not_open_fail _ _ text now
    | cancel => exact Registry.not_open_cancel _ _ now
  | progress =>
    generalize hp : e.registry.progress? job.name = p at hs
    cases hs
    exact Registry.not_open_of_none (Registry.entryOf?_of_progress?_eq_none hp)
  | _ => nomatch hs

end Engine.Serves

namespace Workshop

open Program

variable {s s' : Workshop} {may : Outside → Prop} {i : Nat} {w : Hand}

/-- **A worker that returns has settled its operation.**  Whatever else happens and in
whatever order, a step of a worker changes no entry but that of its own operation; and if
it is the one with which the worker returns, then its operation is not known any more, or it
has ended with a result or a fault but not with both, and no resource is held by it. -/
theorem settled_of_returned (h : Reachable may s) (hw : s.workers[i]? = some w)
    (hwork : s.Works i s') :
    (∀ m, m ≠ w.job.name → s'.registry.entryOf? m = s.registry.entryOf? m) ∧
      ∀ w', s'.workers[i]? = some w' → w'.rest = .done () → s'.registry.Over w.job.name := by
  have hsound : s'.Sound := h.sound.works hwork
  obtain ⟨v, v', hv, -, -, hworkers, -, q, answer, hserves, hcases⟩ := hwork.step_cases h.sound
  obtain rfl := Option.some.inj (hw.symm.trans hv)
  rcases hcases with ⟨hworking, hgoes⟩ | ⟨hsettling, -⟩
  · refine ⟨fun m hm => hserves.entryOf?_of_working hworking hm, fun w' hw' hdone => ?_⟩
    -- the worker has not returned with this step
    have hlt : i < s.workers.length := (List.getElem?_eq_some_iff.mp hw).1
    rw [hworkers, List.getElem?_set_self hlt] at hw'
    rw [← Option.some.inj hw'] at hdone
    exact absurd hdone hgoes
  · refine ⟨fun m hm => hserves.entryOf?_of_settling hsettling hm, fun _ _ _ => ?_⟩
    exact hsound.agrees.over_of_not_open (hserves.not_open_of_settling hsettling)

/-- A build was cancelled, and the pool is closed before its worker gets a place. -/
def closed : Workshop :=
  { cancelled with engine := { cancelled.engine with poolOpen := false } }

theorem closed_reachable : Reachable (fun _ => True) closed :=
  (cancelled_reachable trivial).step (.closePool cancelled trivial)

/-- The worker learns that there is no place and records a failure.  It is refused, and yet
the operation is settled when the worker returns. -/
theorem settled_of_refused :
    ∃ s s' w, closed.Works 0 s ∧ s.workers[0]? = some w ∧ s.Works 0 s' ∧
      s'.workers[0]?.map Hand.rest = some (.done ()) ∧ s'.registry.Over w.job.name := by
  have hplace : closed.Works 0 _ := .intro rfl rfl .place
  have hreach : Reachable (fun _ => True) _ := closed_reachable.step (.work hplace)
  refine ⟨_, _, _, hplace, rfl, .intro rfl rfl (.change _ 2), rfl, ?_⟩
  exact (settled_of_returned hreach rfl (.intro rfl rfl (.change _ 2))).2 _ rfl rfl

end Workshop
end ProtoBuild
