import Mathlib.Logic.Relation
import ProtoBuild.Proofs.Engine.Worker
import ProtoBuild.Proofs.Registry.Agreement

/-!
# Workers and their surroundings, step by step

A `Workshop` is an engine with the workers that were started, each with what it has asked
so far and what it still does.  `Workshop.Step` is one step of it, and steps come in any
order: somebody asks for a build, a worker gets the answer to its next request, or somebody
from outside sends the registry a message, closes the pool or starts a worker.  Which of
the latter may happen is a parameter, so that each statement says what it allows.

## What a step may leave open

A call is one step: the one in which its answer arrives.  Until then the worker stands at
its call, and whatever happens meanwhile are other steps.  What the answer is, which time the
clock shows and when a place in the pool becomes free is left open, so that a statement
about all steps holds whatever the tools, the clock and the number of places are.

A shutdown is allowed as one message.  One that is interrupted by others is no more than
single cancellations, and these are steps as well.
-/

namespace ProtoBuild

open Program

/-- A worker that was started. -/
structure Hand where
  job : Job
  /-- What it has asked so far, with the answers. -/
  past : Worker.Run := []
  /-- What it still does. -/
  rest : Program Worker.interface Unit

/-- A worker at its beginning. -/
def Hand.ofJob (job : Job) : Hand :=
  { job := job, rest := Worker.run job }

/-- A worker can still call a collaborator: some answers to its requests lead to a call. -/
def Hand.MayCall (w : Hand) : Prop :=
  ∃ run c, ∃ next : c.Answer → Program Worker.interface Unit,
    Reaches w.rest run (.ask (.call c) next)

/-- A worker that has returned calls nobody. -/
theorem Hand.MayCall.ne_done {w : Hand} (h : w.MayCall) : w.rest ≠ .done () := by
  obtain ⟨run, c, next, hreach⟩ := h
  intro hdone
  rw [hdone] at hreach
  exact absurd (reaches_done_iff.mp hreach).2 (by simp)

/-- A worker at its beginning may get as far as the preparation of its lake. -/
theorem Hand.MayCall.ofJob (job : Job) : (Hand.ofJob job).MayCall :=
  ⟨[⟨.place, true⟩, ⟨.progress, some (.initial job.lake job.target "" 0)⟩, ⟨.isCancelled, false⟩],
    .prepare job.lake, _, .ask (.ask (.ask (.refl _)))⟩

/-- An engine and its workers. -/
structure Workshop where
  engine : Engine
  /-- What was answered to those who asked for builds, in their order. -/
  answers : List Operation := []
  workers : List Hand := []

/-- What may happen from outside, apart from asking for builds. -/
inductive Outside where
  /-- Somebody sends the registry a message. -/
  | message (m : Registry.Message)
  /-- The pool of workers is closed. -/
  | closePool
  /-- Somebody starts a worker without asking for its admission. -/
  | start (job : Job)

/-- How an engine may answer a request of the worker of a job, and the engine then. -/
inductive Engine.Serves (e : Engine) (job : Job) : (q : Worker.Request) → q.Answer → Engine → Prop
  | place : Serves e job .place e.poolOpen e
  | progress : Serves e job .progress (e.registry.progress? job.name) e
  | change (m : Registry.Message) (now : UInt64) : Serves e job (.change m) () (e.send now m).1
  | call (c : Call) (answer : c.Answer) : Serves e job (.call c) answer e
  | now (time : UInt64) : Serves e job .now time e
  | isCancelled : Serves e job .isCancelled (e.registry.tripped job.token) e

namespace Workshop

/-- A workshop before anything was asked for. -/
def opened (retention : UInt64) : Workshop :=
  { engine := { retention := retention } }

/-- The registry of the engine. -/
def registry (s : Workshop) : Registry := s.engine.registry

/-- Somebody asks for a build under a name.  If its operation is admitted, a worker is
started for it. -/
def submit (s : Workshop) (name : OperationName) (lake : Workspace) (resource : ResourceName)
    (target : String) (options : BuildOptions) (progress : Progress) : Workshop :=
  let (e, o, _) :=
    { s.engine with queue := [] }.submitAs name lake resource target options progress
  { engine := { e with queue := [] }
    answers := s.answers ++ [o]
    workers := s.workers ++ e.queue.map Hand.ofJob }

/-- A worker gets the answer to its next request. -/
inductive Works (s : Workshop) (i : Nat) : Workshop → Prop where
  | intro {w : Hand} {q : Worker.Request} {next : q.Answer → Program Worker.interface Unit}
      {answer : q.Answer} {e : Engine} (hw : s.workers[i]? = some w) (hrest : w.rest = .ask q next)
      (hserves : s.engine.Serves w.job q answer e) :
      Works s i
        { s with
          engine := e
          workers := s.workers.set i
            { w with past := w.past ++ [⟨q, answer⟩], rest := next answer } }

/-- One step of a workshop, where from outside only certain things happen. -/
inductive Step (may : Outside → Prop) : Workshop → Workshop → Prop where
  | submit (s : Workshop) (name : OperationName) (lake : Workspace) (resource : ResourceName)
      (target : String) (options : BuildOptions) (progress : Progress) :
      Step may s (s.submit name lake resource target options progress)
  | work {s s' : Workshop} {i : Nat} (h : s.Works i s') : Step may s s'
  | message (s : Workshop) {m : Registry.Message} (now : UInt64) (h : may (.message m)) :
      Step may s { s with engine := (s.engine.send now m).1 }
  | closePool (s : Workshop) (h : may .closePool) :
      Step may s { s with engine := { s.engine with poolOpen := false } }
  | start (s : Workshop) {job : Job} (h : may (.start job)) :
      Step may s { s with workers := s.workers ++ [.ofJob job] }

/-- The workshops that come about. -/
def Reachable (may : Outside → Prop) (s : Workshop) : Prop :=
  ∃ retention, Relation.ReflTransGen (Step may) (opened retention) s

/-! ## What every step keeps -/

/-- The registry agrees with itself, and each worker is where its own program has led it. -/
structure Sound (s : Workshop) : Prop where
  agrees : s.registry.Agrees
  runs : ∀ w ∈ s.workers, Reaches (Worker.run w.job) w.past w.rest

variable {s s' : Workshop} {may : Outside → Prop} {i : Nat}

/-- What comes of a request for a build: the registry is asked to admit it, and then its
operation is open and a worker stands at its beginning, or it is answered as aborted and
there is no worker for it. -/
theorem submit_cases (s : Workshop) (name : OperationName) (lake : Workspace)
    (resource : ResourceName) (target : String) (options : BuildOptions) (progress : Progress) :
    let s' := s.submit name lake resource target options progress
    let token : Token := ⟨s.engine.nextToken⟩
    s'.registry = (s.registry.register name resource progress token).1 ∧
      (s'.registry.Open name { operation := .pending name resource progress, token := token } ∧
          s'.answers = s.answers ++ [.pending name resource progress] ∧
          s'.workers = s.workers ++ [.ofJob { name, lake, target, options, token }] ∨
        ∃ other, s'.answers = s.answers ++ [.aborted name resource progress other] ∧
          s'.workers = s.workers ∧ s'.registry = s.registry) := by
  intro s' token
  rcases s.registry.register_cases name resource progress token with
    ⟨-, -, heq⟩ | ⟨-, other, heq⟩
  · have hregistry : s'.registry = s.registry.addEntry name resource
        { operation := .pending name resource progress, token := token } := by
      simp only [registry] at heq
      simp [s', submit, registry, Engine.submitAs, Engine.drawToken, heq, token,
        Operation.pending, Engine.enqueue]
    refine ⟨by rw [heq, hregistry], Or.inl ⟨⟨?_, rfl⟩, ?_⟩⟩
    · rw [hregistry, Registry.entryOf?_addEntry, if_pos rfl]
    · simp only [registry] at heq
      simp [s', submit, Engine.submitAs, Engine.drawToken, heq, token, Operation.pending,
        Engine.enqueue]
  · rw [heq]
    simp only [registry] at heq
    have hregistry : s'.registry = s.engine.registry := by
      simp [s', submit, registry, Engine.submitAs, Engine.drawToken, heq, token,
        Operation.aborted]
    refine ⟨hregistry, Or.inr ⟨other, ?_, ?_, hregistry⟩⟩
    · simp [s', submit, Engine.submitAs, Engine.drawToken, heq, token, Operation.aborted]
    · simp [s', submit, Engine.submitAs, Engine.drawToken, heq, token, Operation.aborted]

/-- A worker at its beginning has asked nothing. -/
theorem reaches_ofJob (job : Job) :
    Reaches (Worker.run (Hand.ofJob job).job) (Hand.ofJob job).past (Hand.ofJob job).rest :=
  .refl _

theorem Sound.opened (retention : UInt64) : (opened retention).Sound where
  agrees := .empty
  runs _ hw := absurd hw List.not_mem_nil

theorem Sound.submit (h : s.Sound) (name : OperationName) (lake : Workspace)
    (resource : ResourceName) (target : String) (options : BuildOptions) (progress : Progress) :
    (s.submit name lake resource target options progress).Sound := by
  obtain ⟨hregistry, hcases⟩ := s.submit_cases name lake resource target options progress
  refine ⟨?_, fun w hw => ?_⟩
  · rw [hregistry]
    exact h.agrees.register resource progress _
  · rcases hcases with ⟨-, -, hworkers⟩ | ⟨other, -, hworkers, -⟩
    · rw [hworkers, List.mem_append, List.mem_singleton] at hw
      rcases hw with hw | rfl
      · exact h.runs w hw
      · exact reaches_ofJob _
    · rw [hworkers] at hw
      exact h.runs w hw

theorem Sound.serves {job : Job} {q : Worker.Request} {answer : q.Answer} {e : Engine}
    (h : s.Sound) (hserves : s.engine.Serves job q answer e) : e.registry.Agrees := by
  cases hserves with
  | change m now => exact h.agrees.handle _ _ _
  | _ => exact h.agrees

theorem Sound.works (h : s.Sound) (hwork : s.Works i s') : s'.Sound := by
  obtain ⟨hw, hrest, hserves⟩ := hwork
  refine ⟨h.serves hserves, fun v hv => ?_⟩
  rcases List.mem_or_eq_of_mem_set hv with hv | rfl
  · exact h.runs v hv
  · refine Reaches.snoc ?_ _
    rw [← hrest]
    exact h.runs _ (List.mem_of_getElem? hw)

/-- **Every step keeps a workshop sound**, whatever may happen from outside. -/
theorem Sound.step (h : s.Sound) (hs : Step may s s') : s'.Sound := by
  cases hs with
  | submit name lake resource target options progress => exact h.submit ..
  | work hwork => exact h.works hwork
  | message now hm => exact ⟨h.agrees.handle _ _ _, h.runs⟩
  | closePool hm => exact ⟨h.agrees, h.runs⟩
  | start hm =>
    refine ⟨h.agrees, fun w hw => ?_⟩
    rw [List.mem_append, List.mem_singleton] at hw
    rcases hw with hw | rfl
    · exact h.runs w hw
    · exact reaches_ofJob _

theorem Reachable.sound (h : Reachable may s) : s.Sound := by
  obtain ⟨retention, hsteps⟩ := h
  induction hsteps with
  | refl => exact .opened retention
  | tail _ hs ih => exact ih.step hs

/-! ## What a step of a worker is -/

/-- A worker takes a step: its run has come to a request, and it gets an answer of the
engine. -/
theorem Works.exists_run (hs : s.Sound) (h : s.Works i s') :
    ∃ w q, ∃ next : q.Answer → Program Worker.interface Unit, ∃ answer e,
      s.workers[i]? = some w ∧ w.rest = .ask q next ∧
        Reaches (Worker.run w.job) w.past (.ask q next) ∧ s.engine.Serves w.job q answer e ∧
        s' =
          { s with
            engine := e
            workers := s.workers.set i
              { w with past := w.past ++ [⟨q, answer⟩], rest := next answer } } := by
  obtain ⟨hw, hrest, hserves⟩ := h
  refine ⟨_, _, _, _, _, hw, hrest, ?_, hserves, rfl⟩
  rw [← hrest]
  exact hs.runs _ (List.mem_of_getElem? hw)

/-- It has not returned before, and what it gets is an answer to work, after which it goes on,
or to its last request, after which it has returned. -/
theorem Works.step_cases (hs : s.Sound) (h : s.Works i s') :
    ∃ w w', s.workers[i]? = some w ∧ w.rest ≠ .done () ∧ w'.job = w.job ∧
      s'.workers = s.workers.set i w' ∧ s'.answers = s.answers ∧
      ∃ q, ∃ answer : q.Answer, s.engine.Serves w.job q answer s'.engine ∧
        (Worker.Working w.job.name ⟨q, answer⟩ ∧ w'.rest ≠ .done () ∨
          Worker.Settling w.job.name ⟨q, answer⟩ ∧ w'.rest = .done ()) := by
  obtain ⟨w, q, next, answer, e, hw, hrest, hrun, hserves, rfl⟩ := h.exists_run hs
  refine ⟨w, { w with past := w.past ++ [⟨q, answer⟩], rest := next answer }, hw, ?_, rfl, rfl,
    rfl, q, answer, hserves, (Worker.step_cases hrun answer).2⟩
  rw [hrest]
  nofun

/-! ## One that comes about -/

/-- A build that somebody has asked for. -/
def asked : Workshop :=
  (opened 0).submit ⟨"lakes/a/operations/op-1"⟩ {} ⟨"lakes/a"⟩ "." {} (.initial {} "." "main" 0)

/-- The build is cancelled before its worker has looked at anything. -/
def cancelled : Workshop :=
  { asked with engine := (asked.engine.send 1 (.cancel ⟨"lakes/a/operations/op-1"⟩)).1 }

theorem cancelled_reachable (h : may (.message (.cancel ⟨"lakes/a/operations/op-1"⟩))) :
    Reachable may cancelled :=
  ⟨0, .tail (.single (.submit ..)) (.message asked 1 h)⟩

/-! ## Workers that are driven

One way for a workshop to come about is that a worker is driven for a while where the tools
succeed and the clock stands still.
-/

end Workshop

/-- How an engine answers where the tools succeed and the clock stands still, and the engine
then. -/
def Engine.serve (e : Engine) (job : Job) : (q : Worker.Request) → q.Answer × Engine
  | .place => (e.poolOpen, e)
  | .progress => (e.registry.progress? job.name, e)
  | .change m => ((), (e.send 0 m).1)
  | .call c => (c.success, e)
  | .now => (0, e)
  | .isCancelled => (e.registry.tripped job.token, e)

theorem Engine.serves_serve (e : Engine) (job : Job) (q : Worker.Request) :
    e.Serves job q (e.serve job q).1 (e.serve job q).2 := by
  cases q with
  | place => exact .place
  | progress => exact .progress
  | change m => exact .change m 0
  | call c => exact .call c c.success
  | now => exact .now 0
  | isCancelled => exact .isCancelled

namespace Workshop

variable {s s' : Workshop} {may : Outside → Prop}

/-- A workshop after a step of one of its workers, if it can take one. -/
def drive (s : Workshop) (i : Nat) : Workshop :=
  match s.workers[i]? with
  | some ⟨job, past, .ask q next⟩ =>
    let (answer, e) := s.engine.serve job q
    { s with
      engine := e
      workers := s.workers.set i ⟨job, past ++ [⟨q, answer⟩], next answer⟩ }
  | _ => s

/-- A workshop after some steps of one of its workers. -/
def driven (s : Workshop) (i : Nat) : Nat → Workshop
  | 0 => s
  | n + 1 => (s.drive i).driven i n

theorem steps_driven (s : Workshop) (i n : Nat) :
    Relation.ReflTransGen (Step may) s (s.driven i n) := by
  induction n generalizing s with
  | zero => exact .refl
  | succ n ih =>
    refine .trans ?_ (ih (s.drive i))
    unfold drive
    split
    · rename_i job past q next hw
      exact .single (.work (.intro hw rfl (s.engine.serves_serve job q)))
    · exact .refl

theorem Reachable.steps (h : Reachable may s) (hsteps : Relation.ReflTransGen (Step may) s s') :
    Reachable may s' := by
  obtain ⟨retention, hbefore⟩ := h
  exact ⟨retention, hbefore.trans hsteps⟩

theorem Reachable.step (h : Reachable may s) (hstep : Step may s s') : Reachable may s' :=
  h.steps (.single hstep)

theorem Step.mono {may' : Outside → Prop} (h : Step may s s') (hmay : ∀ x, may x → may' x) :
    Step may' s s' := by
  cases h with
  | submit name lake resource target options progress => exact .submit ..
  | work hwork => exact .work hwork
  | message now hm => exact .message s now (hmay _ hm)
  | closePool hm => exact .closePool s (hmay _ hm)
  | start hm => exact .start s (hmay _ hm)

theorem Reachable.mono {may' : Outside → Prop} (h : Reachable may s)
    (hmay : ∀ x, may x → may' x) : Reachable may' s := by
  obtain ⟨retention, hsteps⟩ := h
  exact ⟨retention, Relation.ReflTransGen.mono (fun _ _ hstep => hstep.mono hmay) _ _ hsteps⟩

theorem asked_reachable : Reachable may asked := ⟨0, .single (.submit ..)⟩

/-- The worker of a build that was asked for takes some steps, and then somebody cancels the
operation. -/
def interrupted (n : Nat) : Workshop :=
  { asked.driven 0 n with
    engine := ((asked.driven 0 n).engine.send 1 (.cancel ⟨"lakes/a/operations/op-1"⟩)).1 }

theorem step_interrupted (h : may (.message (.cancel ⟨"lakes/a/operations/op-1"⟩))) (n : Nat) :
    Step may (asked.driven 0 n) (interrupted n) :=
  .message _ 1 h

end Workshop
end ProtoBuild
