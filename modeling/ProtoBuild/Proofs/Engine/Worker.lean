import ProtoBuild.Engine
import ProtoBuild.Proofs.Pipeline.Completion

/-!
# What a worker sends

A worker asks for many things, but what it sends to the registry is little: while it works,
the progress of its operation; last of all, one message that ends the operation, unless it
was told at its start that the operation is not known any more.

`Working` and `Settling` are the exchanges of the two kinds, and `step_cases` is all that
the rest of the development knows of a worker: each of its steps is of the first kind and the
worker goes on, or it is of the second and the worker returns.  It hangs on
`Pipeline.ensures_completed_last`: the message that completes an operation is sent in the
middle of the build's own program, and only since the build tells of its completion last is
nothing sent or called after it.
-/

namespace ProtoBuild
namespace Worker

open Program

/-- A run of a worker. -/
abbrev Run := List (Exchange interface)

/-- An exchange of a worker that goes on: it sends nothing but progress. -/
inductive Working (name : OperationName) : Exchange interface → Prop where
  | place (b : Bool) : Working name ⟨.place, b⟩
  | progress (p : Progress) : Working name ⟨.progress, some p⟩
  | update (p : Progress) : Working name ⟨.change (.update name p), ()⟩
  | call (c : Call) (answer : c.Answer) : Working name ⟨.call c, answer⟩
  | now (time : UInt64) : Working name ⟨.now, time⟩
  | isCancelled (b : Bool) : Working name ⟨.isCancelled, b⟩

/-- The last exchange of a worker: it learns that its operation is gone, or it ends it. -/
inductive Settling (name : OperationName) : Exchange interface → Prop where
  | gone : Settling name ⟨.progress, none⟩
  | complete (r : BuildResult) : Settling name ⟨.change (.complete name r), ()⟩
  | fail (message : String) : Settling name ⟨.change (.fail name message), ()⟩
  | cancel : Settling name ⟨.change (.cancel name), ()⟩

variable {job : Job} {name : OperationName} {run : Run}

/-! ## Complete runs -/

/-- What a worker does for an exchange of its build. -/
def passOn (name : OperationName) : Exchange Pipeline.interface → Run
  | ⟨.call c, answer⟩ => [⟨.call c, answer⟩]
  | ⟨.now, time⟩ => [⟨.now, time⟩]
  | ⟨.isCancelled, b⟩ => [⟨.isCancelled, b⟩]
  | ⟨.tell (.updated p), _⟩ => [⟨.change (.update name p), ()⟩]
  | ⟨.tell (.completed r), _⟩ => [⟨.change (.complete name r), ()⟩]
  | ⟨.tell _, _⟩ => []

theorem reaches_serve (q : Pipeline.Request) (part : Run) (reply : q.Answer)
    (h : Reaches (serve name q) part (.done reply)) : part = passOn name ⟨q, reply⟩ := by
  cases q with
  | call c => exact reaches_request_iff.mp h
  | now => exact reaches_request_iff.mp h
  | isCancelled => exact reaches_request_iff.mp h
  | tell e =>
    cases e with
    | updated p => exact reaches_request_iff.mp h
    | completed r => exact reaches_request_iff.mp h
    | phaseStarted phase => exact (reaches_done_iff.mp h).1
    | phaseCompleted phase success message => exact (reaches_done_iff.mp h).1
    | failed message => exact (reaches_done_iff.mp h).1

/-- While the completion is not told, all that a worker does for its build is work. -/
theorem working_of_plain {inner : Pipeline.Run} (h : inner.Plain) :
    ∀ x ∈ inner.flatMap (passOn name), Working name x := by
  intro x hx
  obtain ⟨⟨q, answer⟩, hq, hx⟩ := List.mem_flatMap.mp hx
  cases q with
  | call c =>
    obtain rfl := List.mem_singleton.mp hx
    exact .call c answer
  | now =>
    obtain rfl := List.mem_singleton.mp hx
    exact .now answer
  | isCancelled =>
    obtain rfl := List.mem_singleton.mp hx
    exact .isCancelled answer
  | tell e =>
    cases e with
    | updated p =>
      obtain rfl := List.mem_singleton.mp hx
      exact .update p
    | completed r =>
      have hr : Event.completed r ∈ Pipeline.events inner := List.mem_filterMap.mpr ⟨_, hq, rfl⟩
      exact absurd hr (h r)
    | phaseStarted phase => exact absurd hx List.not_mem_nil
    | phaseCompleted phase success message => exact absurd hx List.not_mem_nil
    | failed message => exact absurd hx List.not_mem_nil

/-- What a worker sends after its build. -/
def concluding (name : OperationName) : Except PipelineError BuildResult → Run
  | .ok _ => []
  | .error .cancelled => [⟨.change (.cancel name), ()⟩]
  | .error e => [⟨.change (.fail name ("Build failed: " ++ e.message)), ()⟩]

theorem reaches_conclude {answer : Except PipelineError BuildResult}
    (h : Reaches (conclude name answer) run (.done ())) : run = concluding name answer := by
  cases answer with
  | ok result => exact (reaches_done_iff.mp h).1
  | error e => cases e <;> exact reaches_request_iff.mp h

/-- **The complete runs of a worker.**  The pool is closed, or the operation is not known any
more, or the build is run from the progress that the operation has. -/
theorem complete_cases (h : Reaches (Worker.run job) run (.done ())) :
    (∃ text, run = [⟨.place, false⟩, ⟨.change (.fail job.name text), ()⟩]) ∨
      run = [⟨.place, true⟩, ⟨.progress, none⟩] ∨
      ∃ p inner answer p',
        Reaches (Pipeline.run job.lake job.target job.options p) inner (.done (answer, p')) ∧
          run = ⟨.place, true⟩ :: ⟨.progress, some p⟩ ::
            (inner.flatMap (passOn job.name) ++ concluding job.name answer) := by
  obtain ⟨_, rest, isOpen, rfl, hplace, h₁⟩ := reaches_bind_iff.mp h
  obtain rfl := reaches_request_iff.mp hplace
  cases isOpen with
  | false =>
    obtain rfl := reaches_request_iff.mp h₁
    exact Or.inl ⟨_, rfl⟩
  | true =>
    obtain ⟨_, rest, progress, rfl, hprogress, h₂⟩ := reaches_bind_iff.mp h₁
    obtain rfl := reaches_request_iff.mp hprogress
    cases progress with
    | none =>
      obtain ⟨rfl, -⟩ := reaches_done_iff.mp h₂
      exact Or.inr (Or.inl rfl)
    | some p =>
      obtain ⟨first, second, ⟨answer, p'⟩, rfl, hbuild, hend⟩ := reaches_bind_iff.mp h₂
      obtain ⟨inner, hinner, rfl⟩ := reaches_answerWith reaches_serve hbuild
      obtain rfl := reaches_conclude hend
      exact Or.inr (Or.inr ⟨p, inner, answer, p', hinner, rfl⟩)

/-- The part of a worker that runs the build, from the progress it was given. -/
theorem build_then_settling {p p' : Progress} {answer : Except PipelineError BuildResult}
    {inner : Pipeline.Run}
    (h : Reaches (Pipeline.run job.lake job.target job.options p) inner (.done (answer, p'))) :
    ∃ before last, inner.flatMap (passOn job.name) ++ concluding job.name answer =
        before ++ [last] ∧ (∀ x ∈ before, Working job.name x) ∧ Settling job.name last := by
  have hlast := ensures_iff.mp
    (Pipeline.ensures_completed_last job.lake job.target job.options p) inner _ h
  rw [List.nil_append] at hlast
  cases answer with
  | ok result =>
    obtain ⟨before, hplain, rfl, -⟩ := hlast
    refine ⟨before.flatMap (passOn job.name), _, ?_, working_of_plain hplain, .complete result⟩
    rw [concluding, List.append_nil, List.flatMap_append]
    rfl
  | error e =>
    cases e with
    | cancelled => exact ⟨_, _, rfl, working_of_plain hlast, .cancel⟩
    | _ => exact ⟨_, _, rfl, working_of_plain hlast, .fail _⟩

/-- **A worker works, then it settles its operation.** -/
theorem working_then_settling (h : Reaches (Worker.run job) run (.done ())) :
    ∃ before last, run = before ++ [last] ∧ (∀ x ∈ before, Working job.name x) ∧
      Settling job.name last := by
  rcases complete_cases h with ⟨text, rfl⟩ | rfl | ⟨p, inner, answer, p', hbuild, rfl⟩
  · exact ⟨[⟨.place, false⟩], _, rfl, by simpa using .place false, .fail _⟩
  · exact ⟨[⟨.place, true⟩], _, rfl, by simpa using .place true, .gone⟩
  · obtain ⟨before, last, heq, hworking, hsettling⟩ := build_then_settling hbuild
    refine ⟨⟨.place, true⟩ :: ⟨.progress, some p⟩ :: before, last, ?_, ?_, hsettling⟩
    · rw [heq]
      rfl
    · intro x hx
      rcases List.mem_cons.mp hx with rfl | hx
      · exact .place true
      · rcases List.mem_cons.mp hx with rfl | hx
        · exact .progress p
        · exact hworking x hx

/-! ## Runs under way -/

/-- The answers to a worker that gets its place and finds its operation gone. -/
def vanished : (q : Request) → q.Answer
  | .place => true
  | .progress => none
  | .change _ => ()
  | .call c => c.success
  | .now => 0
  | .isCancelled => false

/-- **What one step of a worker can be.**  A worker that has not returned has only worked so
far; the next exchange is work as well, or it settles the operation and the worker
returns. -/
theorem step_cases {q : Request} {next : q.Answer → Program interface Unit}
    (h : Reaches (Worker.run job) run (.ask q next)) (answer : q.Answer) :
    (∀ x ∈ run, Working job.name x) ∧
      (Working job.name ⟨q, answer⟩ ∧ next answer ≠ .done () ∨
        Settling job.name ⟨q, answer⟩ ∧ next answer = .done ()) := by
  obtain ⟨more, ⟨⟩, hall, hmore⟩ := (h.snoc answer).exists_complete vanished
  obtain ⟨before, last, heq, hworking, hsettling⟩ := working_then_settling hall
  rcases List.eq_nil_or_concat more with rfl | ⟨more', last', rfl⟩
  · -- nothing is left to ask, so this exchange is the last one
    rw [List.append_nil] at heq
    obtain ⟨rfl, hlast⟩ := List.append_inj' heq rfl
    obtain rfl := List.singleton_inj.mp hlast
    exact ⟨hworking, Or.inr ⟨hsettling, (reaches_nil_iff.mp hmore).symm⟩⟩
  · rw [List.concat_eq_append, ← List.append_assoc] at heq
    obtain ⟨rfl, -⟩ := List.append_inj' heq rfl
    refine ⟨fun x hx => hworking x (by simp [hx]), Or.inl ⟨hworking _ (by simp), ?_⟩⟩
    intro hdone
    rw [hdone, reaches_done_iff] at hmore
    exact absurd hmore.1 (by simp)

end Worker
end ProtoBuild
