import Mathlib.Data.List.Basic
import ProtoBuild.Proofs.Engine.Worker
import ProtoBuild.Proofs.Pipeline.Coherence
import ProtoBuild.Proofs.Pipeline.Shown

/-!
# What a worker knows of the progress

The registry holds the progress of an operation, and the worker has a copy of its own: it is
told the progress when it begins, and from then on it sends what its build shows.  `known` is
all that it was told or has sent, and `InStep` says that what the registry holds is the last of
it.

What a worker sends next fits what it knows (`InStep.fits`): progress is further on, a result
stands in the stage of a completed build, and a failure or a cancellation agrees with the stage
that was shown last.  The rest of the development knows no more than this of what is said in
the messages of a worker.
-/

namespace ProtoBuild

/-- The progress of a build that has just been asked for. -/
def Progress.IsNew (p : Progress) : Prop :=
  ∃ lake target branch now, p = .initial lake target branch now

/-- A build that stands in a stage can go there. -/
theorem Progress.stage_advance_self {p : Progress} {stage : Stage} (h : p.stage = stage) :
    (p.advance stage).1.stage = stage := by
  unfold advance
  split
  · rfl
  · exact h

namespace Pipeline

open Program

variable {lake : Workspace} {target : String} {options : BuildOptions} {run : Run}
  {p q : Progress} {answer : Except PipelineError BuildResult}

theorem forward_of_reaches (hp : p.IsNew)
    (h : Reaches (Pipeline.run lake target options p) run (.done (answer, q))) :
    Forward p run q := by
  obtain ⟨recorded, requested, branch, time, rfl⟩ := hp
  have hall := ensures_iff.mp
    (ensures_forward lake target options recorded requested branch time) run (answer, q) h
  rw [List.nil_append] at hall
  cases answer with
  | ok result => exact hall
  | error e => exact hall

/-- A build that has just been asked for ends in the stage that belongs to its answer. -/
theorem stage_of_reaches (hp : p.IsNew)
    (h : Reaches (Pipeline.run lake target options p) run (.done (answer, q))) :
    q.stage = lastStage answer ∧ lastShown? run = some q := by
  obtain ⟨recorded, requested, branch, time, rfl⟩ := hp
  have hended : Ended _ False (lastStage answer) run q :=
    ended_of_reaches False.elim (Progress.between_initial recorded requested branch time) h
  exact ⟨hended.stage_eq, hended.shown⟩

/-- As long as no completion is told, what was shown was pushed. -/
theorem shown_of_plain (h : run.Plain) : shown run = (events run).filterMap Event.progress? := by
  refine List.filterMap_congr fun e he => ?_
  cases e with
  | completed result => exact absurd he (h result)
  | _ => rfl

end Pipeline

namespace Worker

open Program

/-- The progress that a worker is told or sends with an exchange. -/
def knownOf? : Exchange interface → Option Progress
  | ⟨.progress, p⟩ => p
  | ⟨.change (.update _ p), _⟩ => some p
  | ⟨.change (.complete _ result), _⟩ => some result.progress
  | _ => none

/-- All that a worker was told or has sent of the progress. -/
def known (run : Run) : List Progress := run.filterMap knownOf?

variable {job : Job} {name : OperationName} {run more : Run} {p first now : Progress}

@[simp] theorem known_append : known (run ++ more) = known run ++ known more :=
  List.filterMap_append

/-- A worker sends what its build shows. -/
theorem known_passOn (name : OperationName) (inner : Pipeline.Run) :
    known (inner.flatMap (passOn name)) = Pipeline.shown inner := by
  induction inner with
  | nil => rfl
  | cons x rest ih =>
    have hx : known (passOn name x) = Pipeline.shown [x] := by
      obtain ⟨q, answer⟩ := x
      cases q with
      | tell e => cases e <;> rfl
      | _ => rfl
    rw [List.flatMap_cons, known_append, ih, hx, ← Pipeline.shown_append, List.singleton_append]

/-- A worker that runs its build knows the progress that it was told and what was shown. -/
theorem known_build (name : OperationName) (p : Progress) (inner : Pipeline.Run) :
    known (⟨.place, true⟩ :: ⟨.progress, some p⟩ :: inner.flatMap (passOn name)) =
      p :: Pipeline.shown inner :=
  congrArg (p :: ·) (known_passOn name inner)

theorem known_concluding (name : OperationName) (answer : Except PipelineError BuildResult) :
    known (concluding name answer) = [] := by
  cases answer with
  | ok result => rfl
  | error e => cases e <;> rfl

/-- What a worker knows moves forward, if the first of it is new. -/
theorem pairwise_known {rest : Program interface Unit} (h : Reaches (Worker.run job) run rest)
    (hnew : ∀ p, (known run).head? = some p → p.IsNew) :
    (known run).Pairwise Progress.Onward := by
  obtain ⟨more, ⟨⟩, hall, -⟩ := h.exists_complete vanished
  have hprefix : known run <+: known (run ++ more) := by
    rw [known_append]
    exact List.prefix_append ..
  rcases complete_cases hall with ⟨text, heq⟩ | heq | ⟨p, inner, answer, q, hbuild, heq⟩
  · rw [heq] at hprefix
    rw [List.prefix_nil.mp hprefix]
    exact .nil
  · rw [heq] at hprefix
    rw [List.prefix_nil.mp hprefix]
    exact .nil
  · have hknown : known (run ++ more) = p :: Pipeline.shown inner := by
      rw [heq, ← List.cons_append, ← List.cons_append, known_append, known_build,
        known_concluding, List.append_nil]
    rw [hknown] at hprefix
    rcases List.prefix_cons_iff.mp hprefix with hnil | ⟨l, hl, -⟩
    · rw [hnil]
      exact .nil
    · have hp : p.IsNew := hnew p (by rw [hl]; rfl)
      exact (Pipeline.forward_of_reaches hp hbuild).pairwise.sublist hprefix.sublist

/-! ## What a worker sends next -/

/-- A message of a worker fits the last progress that it knows. -/
inductive Fits (name : OperationName) (now : Progress) : Registry.Message → Prop
  | update {p : Progress} (h : now.Onward p) : Fits name now (.update name p)
  | complete {result : BuildResult} (h : now.Onward result.progress)
      (hstage : result.progress.stage = .completed) : Fits name now (.complete name result)
  | fail {text : String} (h : (now.advance .failed).1.stage = .failed) :
      Fits name now (.fail name text)
  | cancel (h : (now.advance .cancelled).1.stage = .cancelled) : Fits name now (.cancel name)

/-- A worker was told one progress at its beginning, and another is the last that it knows. -/
structure InStep (first : Progress) (run : Run) (now : Progress) : Prop where
  head : ∀ p, (known run).head? = some p → p = first
  last : (known run).getLast?.getD first = now

theorem InStep.nil (first : Progress) : InStep first [] first where
  head _ hp := nomatch hp
  last := rfl

theorem InStep.silent (h : InStep first run now) (hmore : known more = []) :
    InStep first (run ++ more) now := by
  constructor
  · rw [known_append, hmore, List.append_nil]
    exact h.head
  · rw [known_append, hmore, List.append_nil]
    exact h.last

/-- A worker that knows something already may learn anything. -/
theorem InStep.learns (h : InStep first run now) (hmore : known more = [p])
    (hp : known run = [] → p = first) : InStep first (run ++ more) p := by
  constructor
  · intro q hq
    rw [known_append, hmore, List.head?_append] at hq
    cases hknown : known run with
    | nil =>
      rw [hknown] at hq
      rw [← hp hknown]
      exact (Option.some.inj hq).symm
    | cons a l =>
      rw [hknown] at hq
      refine h.head q ?_
      rw [hknown]
      exact hq
  · rw [known_append, hmore, List.getLast?_append]
    rfl

/-- The first message of a worker that knows nothing is its last one: there was no place for
it. -/
theorem fail_or_known {m : Registry.Message} {next : Unit → Program interface Unit}
    (h : Reaches (Worker.run job) run (.ask (.change m) next)) :
    (∃ text, m = .fail job.name text) ∧ known run = [] ∨ known run ≠ [] := by
  cases h with
  | @ask _ _ isOpen _ _ h =>
    cases isOpen with
    | false =>
      cases h with
      | refl => exact Or.inl ⟨⟨_, rfl⟩, rfl⟩
      | ask h => exact nomatch h
    | true =>
      cases h with
      | @ask _ _ progress _ _ h =>
        cases progress with
        | none => exact nomatch h
        | some p => exact Or.inr (List.cons_ne_nil p _)

/-- The last message of a worker whose build has ended with an error. -/
theorem concluding_error (name : OperationName) (e : PipelineError) :
    ∃ m, concluding name (.error e) = [⟨.change m, ()⟩] ∧
      (m = .cancel name ∧ e.stage = .cancelled ∨
        ∃ text, m = .fail name text ∧ e.stage = .failed) := by
  cases e with
  | cancelled => exact ⟨_, rfl, Or.inl ⟨rfl, rfl⟩⟩
  | _ => exact ⟨_, rfl, Or.inr ⟨_, rfl, rfl⟩⟩

/-- The last message of a worker that knows something: it has the result of a completed build,
or the build was shown last as cancelled or as failed. -/
theorem last_message_cases {m : Registry.Message}
    (h : Reaches (Worker.run job) (run ++ [⟨.change m, ()⟩]) (.done ()))
    (hknown : known run ≠ []) (hnew : ∀ p, (known run).head? = some p → p.IsNew) :
    (∃ result, m = .complete job.name result ∧ result.progress.stage = .completed) ∨
      ∃ q, (known run).getLast? = some q ∧
        (m = .cancel job.name ∧ q.stage = .cancelled ∨
          ∃ text, m = .fail job.name text ∧ q.stage = .failed) := by
  rcases complete_cases h with ⟨text, heq⟩ | heq | ⟨p, inner, answer, q, hbuild, heq⟩
  · have hsplit : run ++ [_] = [⟨.place, false⟩] ++ [_] := heq
    obtain ⟨rfl, -⟩ := List.append_inj' hsplit rfl
    exact absurd rfl hknown
  · have hsplit : run ++ [_] = [⟨.place, true⟩] ++ [_] := heq
    obtain ⟨rfl, -⟩ := List.append_inj' hsplit rfl
    exact absurd rfl hknown
  · have hlast := ensures_iff.mp
      (Pipeline.ensures_completed_last job.lake job.target job.options p) inner _ hbuild
    rw [List.nil_append] at hlast
    cases answer with
    | ok result =>
      obtain ⟨before, -, rfl, hresult⟩ := hlast
      have hsplit : run ++ [⟨.change m, ()⟩] =
          (⟨.place, true⟩ :: ⟨.progress, some p⟩ :: before.flatMap (passOn job.name)) ++
            [⟨.change (.complete job.name result), ()⟩] := by
        rw [heq, concluding, List.append_nil, List.flatMap_append]
        rfl
      obtain ⟨rfl, hx⟩ := List.append_inj' hsplit rfl
      cases List.singleton_inj.mp hx
      have hstage := (Pipeline.stage_of_reaches (hnew p rfl) hbuild).1
      exact Or.inl ⟨result, rfl, by rw [hresult]; exact hstage⟩
    | error e =>
      obtain ⟨m', hm', hstage'⟩ := concluding_error job.name e
      have hsplit : run ++ [⟨.change m, ()⟩] =
          (⟨.place, true⟩ :: ⟨.progress, some p⟩ :: inner.flatMap (passOn job.name)) ++
            [⟨.change m', ()⟩] := by
        rw [heq, hm']
        rfl
      obtain ⟨rfl, hx⟩ := List.append_inj' hsplit rfl
      cases List.singleton_inj.mp hx
      obtain ⟨hstage, hshown⟩ := Pipeline.stage_of_reaches (hnew p rfl) hbuild
      refine Or.inr ⟨q, ?_, ?_⟩
      · rw [known_build, Pipeline.shown_of_plain hlast, List.getLast?_cons]
        exact congrArg (fun l => some (l.getD p)) hshown
      · rw [hstage]
        exact hstage'

/-- **What a worker sends fits what it knows.** -/
theorem InStep.fits {m : Registry.Message} {next : Unit → Program interface Unit}
    (h : InStep first run now) (hnew : first.IsNew)
    (hrun : Reaches (Worker.run job) run (.ask (.change m) next)) : Fits job.name now m := by
  have hhead : ∀ p, (known run).head? = some p → p.IsNew := fun p hp => h.head p hp ▸ hnew
  rcases fail_or_known hrun with ⟨⟨text, rfl⟩, hnone⟩ | hknown
  · -- nothing is known, so the progress is that of the beginning
    have hfirst : first = now := by
      rw [← h.last, hnone]
      rfl
    obtain ⟨recorded, requested, branch, time, rfl⟩ := hnew
    rw [← hfirst]
    exact .fail rfl
  · have hlast : (known run).getLast? = some now := by
      have hsome := List.getLast?_eq_some_getLast hknown
      have hnow := h.last
      rw [hsome] at hnow ⊢
      exact congrArg some hnow
    have hfurther : ∀ p, known [⟨.change m, ()⟩] = [p] → now.Onward p := by
      intro p hp
      have hlearned := h.learns hp fun hnil => absurd hnil hknown
      have hpairwise := pairwise_known (hrun.snoc ()) fun q hq => hlearned.head q hq ▸ hnew
      rw [known_append, hp] at hpairwise
      exact (List.pairwise_append.mp hpairwise).2.2 now (List.mem_of_getLast? hlast) p
        (List.mem_singleton_self p)
    rcases (step_cases hrun ()).2 with ⟨hworking, -⟩ | ⟨-, hdone⟩
    · cases hworking with
      | update p => exact .update (hfurther p rfl)
    · have hall := hrun.snoc ()
      rw [hdone] at hall
      rcases last_message_cases hall hknown hhead with ⟨result, rfl, hstage⟩ | ⟨q, hq, hm⟩
      · exact .complete (hfurther _ rfl) hstage
      · obtain rfl : q = now := Option.some.inj (hq.symm.trans hlast)
        rcases hm with ⟨rfl, hstage⟩ | ⟨text, rfl, hstage⟩
        · exact .cancel (Progress.stage_advance_self hstage)
        · exact .fail (Progress.stage_advance_self hstage)

end Worker
end ProtoBuild
