import ProtoBuild.Proofs.Engine.Knowledge
import ProtoBuild.Proofs.Pipeline.Cancellation
import ProtoBuild.Proofs.Registry.Agreement

/-!
# A build that is submitted and one that is run alone

A build can be run alone, with a listener that writes down what it is told, or it can be submitted
and run by a worker, which tells the registry.  In between stand the messages of the worker, and
the registry refuses some: progress that would go back, and anything for an operation that is done.
In a world where nobody else sends messages none is refused, and the operation ends as the build
alone does (`submitted_as_alone`).

The argument follows the run of the build alone.  What it shows moves forward
(`Pipeline.Forward`), so each progress is taken by the registry; it tells of its completion last,
so the message that ends the operation finds it open and nothing comes after it; and an error is
told last with the progress that the registry then holds.  That the engine is idle, with a name and
a token that are new, is asked only so that the build is admitted and not asked to stop.

## The world

A `World` answers calls and shows the time, and may keep a state of its own, so that the same
question need not have the same answer twice.  It is asked the same in both runs: a registry that
stores progress does not look at the clock, and where it does, when an operation ends, the build
has nothing more to ask.
-/

namespace ProtoBuild

open Program

/-- What surrounds a build: collaborators and a clock, with a state of theirs. -/
structure World (σ : Type) where
  call : (c : Call) → σ → c.Answer × σ
  now : σ → UInt64 × σ

namespace World

variable {σ : Type} (w : World σ)

/-- The answers to a build that is run alone and not asked to stop, with what its listener was
told. -/
def answer : (q : Pipeline.Request) → StateM (σ × List Event) q.Answer
  | .call c => fun x => ((w.call c x.1).1, (w.call c x.1).2, x.2)
  | .now => fun x => ((w.now x.1).1, (w.now x.1).2, x.2)
  | .isCancelled => fun x => (false, x)
  | .tell e => fun x => ((), x.1, x.2 ++ [e])

/-- A build that is run alone. -/
def runAlone (lake : Workspace) (target : String) (options : BuildOptions) (p : Progress) (s : σ) :
    (Except PipelineError BuildResult × Progress) × σ × List Event :=
  (Pipeline.run lake target options p).answerWith w.answer (s, [])

/-- The time at which the registry handles a message; for a new progress it does not look at the
clock. -/
def stamp : Registry.Message → σ → UInt64 × σ
  | .update _ _ => fun s => (0, s)
  | _ => w.now

/-- The answers to a worker whose engine nobody else uses. -/
def serve (job : Job) : (q : Worker.Request) → StateM (σ × Engine) q.Answer
  | .place => fun x => (x.2.poolOpen, x)
  | .progress => fun x => (x.2.registry.progress? job.name, x)
  | .change m => fun x => ((), (w.stamp m x.1).2, (x.2.send (w.stamp m x.1).1 m).1)
  | .call c => fun x => ((w.call c x.1).1, (w.call c x.1).2, x.2)
  | .now => fun x => ((w.now x.1).1, (w.now x.1).2, x.2)
  | .isCancelled => fun x => (x.2.registry.tripped job.token, x)

/-- A worker that is run to its end. -/
def work (job : Job) (s : σ) (e : Engine) : Unit × σ × Engine :=
  (Worker.run job).answerWith (w.serve job) (s, e)

/-! ## The run of a build alone -/

/-- The answers in a run are those of the world, and no look finds that the build was asked to
stop. -/
inductive Answers : σ → Pipeline.Run → σ → Prop
  | nil (s : σ) : Answers s [] s
  | call {s s' : σ} {run : Pipeline.Run} (c : Call) (h : Answers (w.call c s).2 run s') :
      Answers s (Pipeline.called c (w.call c s).1 :: run) s'
  | now {s s' : σ} {run : Pipeline.Run} (h : Answers (w.now s).2 run s') :
      Answers s (Pipeline.timed (w.now s).1 :: run) s'
  | look {s s' : σ} {run : Pipeline.Run} (h : Answers s run s') :
      Answers s (Pipeline.looked false :: run) s'
  | tell {s s' : σ} {run : Pipeline.Run} (e : Event) (h : Answers s run s') :
      Answers s (Pipeline.told e :: run) s'

variable {w} {α : Type} {s s' : σ} {run : Pipeline.Run} {job : Job} {e : Engine} {o : Operation}

/-- A build that is run alone has a run with the answers of the world. -/
theorem exists_run (w : World σ) (program : Program Pipeline.interface α) (s : σ)
    (before : List Event) :
    ∃ run a s', Reaches program run (.done a) ∧ w.Answers s run s' ∧
      program.answerWith w.answer (s, before) = (a, s', before ++ Pipeline.events run) := by
  induction program generalizing s before with
  | done a => exact ⟨[], a, s, .refl _, .nil s, by rw [Pipeline.events_nil, List.append_nil]; rfl⟩
  | ask q next ih =>
    cases q with
    | call c =>
      obtain ⟨run, a, s', hreach, hanswers, heq⟩ := ih (w.call c s).1 (w.call c s).2 before
      exact ⟨_, a, s', .ask hreach, .call c hanswers, heq⟩
    | now =>
      obtain ⟨run, a, s', hreach, hanswers, heq⟩ := ih (w.now s).1 (w.now s).2 before
      exact ⟨_, a, s', .ask hreach, .now hanswers, heq⟩
    | isCancelled =>
      obtain ⟨run, a, s', hreach, hanswers, heq⟩ := ih false s before
      exact ⟨_, a, s', .ask hreach, .look hanswers, heq⟩
    | tell event =>
      obtain ⟨run, a, s', hreach, hanswers, heq⟩ := ih () s (before ++ [event])
      refine ⟨_, a, s', .ask hreach, .tell event hanswers, ?_⟩
      rw [List.append_assoc] at heq
      exact heq

theorem Answers.exists_between {more : Pipeline.Run} (h : w.Answers s (run ++ more) s') :
    ∃ s₁, w.Answers s run s₁ ∧ w.Answers s₁ more s' := by
  induction run generalizing s with
  | nil => exact ⟨s, .nil s, h⟩
  | cons x run ih =>
    cases h with
    | call c h =>
      obtain ⟨s₁, hrun, hmore⟩ := ih h
      exact ⟨s₁, .call c hrun, hmore⟩
    | now h =>
      obtain ⟨s₁, hrun, hmore⟩ := ih h
      exact ⟨s₁, .now hrun, hmore⟩
    | look h =>
      obtain ⟨s₁, hrun, hmore⟩ := ih h
      exact ⟨s₁, .look hrun, hmore⟩
    | tell event h =>
      obtain ⟨s₁, hrun, hmore⟩ := ih h
      exact ⟨s₁, .tell event hrun, hmore⟩

theorem Answers.not_looked (h : w.Answers s run s') : Pipeline.looked true ∉ run := by
  induction h with
  | nil s => exact List.not_mem_nil
  | look _ ih =>
    intro hmem
    rcases List.mem_cons.mp hmem with heq | hmem
    · exact Bool.noConfusion (Pipeline.looked_inj heq)
    · exact ih hmem
  | call c _ ih => exact fun hmem => (List.mem_cons.mp hmem).elim (fun heq => nomatch heq) ih
  | now _ ih => exact fun hmem => (List.mem_cons.mp hmem).elim (fun heq => nomatch heq) ih
  | tell event _ ih => exact fun hmem => (List.mem_cons.mp hmem).elim (fun heq => nomatch heq) ih

/-- A build in such a world does not return that it was asked to stop. -/
theorem ne_cancelled {lake : Workspace} {target : String} {options : BuildOptions} {p q : Progress}
    {err : PipelineError} (hp : p.IsNew) (hanswers : w.Answers s run s')
    (h : Reaches (Pipeline.run lake target options p) run (.done (.error err, q))) :
    err ≠ .cancelled := by
  rintro rfl
  obtain ⟨recorded, requested, branch, time, rfl⟩ := hp
  -- a token that is tripped after more calls than there are has never been found tripped
  have htrip : Pipeline.TrippedAt ((Pipeline.calls run).length + 1) run := by
    rintro before stopped after rfl
    cases stopped with
    | true => exact absurd (List.mem_append_right _ List.mem_cons_self) hanswers.not_looked
    | false =>
      refine (decide_eq_false ?_).symm
      rw [Pipeline.calls_append, List.length_append]
      omega
  have hstopped := Pipeline.stopped_of_reaches
    (Progress.between_initial recorded requested branch time) rfl htrip h
  exact absurd hstopped.tripped (by omega)

/-! ## The worker follows -/

/-- The registry of an engine holds the operation of a job, which is not done and not asked to
stop. -/
structure Holds (e : Engine) (job : Job) (o : Operation) : Prop where
  held : ∃ d, e.registry.Open job.name d ∧ d.operation = o
  untripped : e.registry.tripped job.token = false

/-- The registry takes progress that goes forward. -/
theorem Holds.update (h : Holds e job o) {p : Progress} (hp : o.progress.Onward p)
    (now : UInt64) :
    Holds (e.send now (.update job.name p)).1 job { o with progress := p } := by
  obtain ⟨⟨d, hd, rfl⟩, huntripped⟩ := h
  have hregistry : (e.send now (.update job.name p)).1.registry =
      e.registry.setEntry job.name (d.withProgress p) := by
    show (e.registry.update job.name p).1 = _
    rw [Registry.update, hd.1]
    simp [hd.2, hp.stage]
  refine ⟨⟨d.withProgress p, ⟨?_, hd.2⟩, rfl⟩, ?_⟩
  · rw [hregistry, Registry.entryOf?_setEntry, if_pos rfl]
  · rw [hregistry, Registry.tripped_setEntry]
    exact huntripped

theorem Holds.complete (h : Holds e job o) (result : BuildResult) (now : UInt64) :
    (e.send now (.complete job.name result)).1.registry.get? job.name =
      some { o with progress := result.progress, done := true, result := some result } := by
  obtain ⟨⟨d, hd, rfl⟩, -⟩ := h
  show (e.registry.complete job.name result now).1.get? job.name = _
  rcases Registry.complete_cases e.registry job.name result now with
    ⟨hnone, -⟩ | ⟨d', hd', heq⟩
  · exact absurd hd (hnone d)
  · obtain rfl := Registry.Open.unique hd hd'
    rw [heq, Registry.get?, Registry.entryOf?_finish, if_pos rfl]
    rfl

theorem Holds.fail (h : Holds e job o) (message : String) (now : UInt64) :
    (e.send now (.fail job.name message)).1.registry.get? job.name =
      some { o with
        progress := (o.progress.advance .failed).1
        done := true
        fault := some { code := .internal, message := message } } := by
  obtain ⟨⟨d, hd, rfl⟩, -⟩ := h
  show (e.registry.fail job.name message now).1.get? job.name = _
  rcases Registry.fail_cases e.registry job.name message now with ⟨hnone, -⟩ | ⟨d', hd', heq⟩
  · exact absurd hd (hnone d)
  · obtain rfl := Registry.Open.unique hd hd'
    rw [heq, Registry.get?, Registry.entryOf?_finish, if_pos rfl]
    rfl

/-- A worker whose build asks nothing that ends its operation is led to where its build is led
alone, and the registry holds the progress that was shown last. -/
theorem follows {program rest : Program Pipeline.interface α} (hanswers : w.Answers s run s')
    (h : Reaches program run rest) (hplain : run.Plain)
    (hforward : (o.progress :: Pipeline.shown run).Pairwise Progress.Onward)
    (he : Holds e job o) :
    ∃ e', Holds e' job { o with progress := (Pipeline.lastShown? run).getD o.progress } ∧
      (program.answerWith (Worker.serve job.name)).answerWith (w.serve job) (s, e) =
        (rest.answerWith (Worker.serve job.name)).answerWith (w.serve job) (s', e') := by
  induction hanswers generalizing program e o with
  | nil s =>
    obtain rfl := reaches_nil_iff.mp h
    exact ⟨e, he, rfl⟩
  | call c _ ih =>
    cases h with
    | ask h => exact ih h hplain hforward he
  | now _ ih =>
    cases h with
    | ask h => exact ih h hplain hforward he
  | look _ ih =>
    cases h with
    | @ask _ next _ _ _ h =>
      have huntripped : e.registry.tripped job.token = false := he.untripped
      obtain ⟨e', he', heq⟩ := ih h hplain hforward he
      refine ⟨e', he', ?_⟩
      rw [← heq]
      show ((next (e.registry.tripped job.token)).answerWith (Worker.serve job.name)).answerWith
        (w.serve job) (_, e) = _
      rw [huntripped]
  | @tell s _ run event _ ih =>
    cases h with
    | @ask _ next _ _ _ h =>
      have hlater : Pipeline.Run.Plain run :=
        fun r hr => hplain r (List.mem_append_right [event] hr)
      cases event with
      | updated p =>
        have hshown : (o.progress :: p :: Pipeline.shown run).Pairwise Progress.Onward := hforward
        obtain ⟨hbehind, hrest⟩ := List.pairwise_cons.mp hshown
        obtain ⟨e', he', heq⟩ := ih h hlater hrest (he.update (hbehind p List.mem_cons_self) 0)
        refine ⟨e', ?_, heq⟩
        have hlast : (Pipeline.lastShown? (Pipeline.told (.updated p) :: run)).getD o.progress =
            (Pipeline.lastShown? run).getD p := by
          show (List.getLast? (p :: _)).getD o.progress = _
          rw [List.getLast?_cons]
          rfl
        rw [hlast]
        exact he'
      | completed result => exact absurd List.mem_cons_self (hplain result)
      | phaseStarted phase =>
        obtain ⟨e', he', heq⟩ := ih h hlater hforward he
        exact ⟨e', he', heq⟩
      | phaseCompleted phase success message =>
        obtain ⟨e', he', heq⟩ := ih h hlater hforward he
        exact ⟨e', he', heq⟩
      | failed message =>
        obtain ⟨e', he', heq⟩ := ih h hlater hforward he
        exact ⟨e', he', heq⟩

end World

/-! ## The operation and the build -/

/-- A progress that stands in a stage is not changed by going there. -/
theorem Progress.advance_self {p : Progress} {stage : Stage} (h : p.stage = stage) :
    (p.advance stage).1 = p := by
  subst h
  rw [advance, if_pos p.stage.canAdvanceTo_refl]

/-- An operation says what a build has come to that was run alone, with what its listener was
told. -/
def Operation.Reports (o : Operation) (name : OperationName) (resource : ResourceName)
    (answer : Except PipelineError BuildResult) (told : List Event) : Prop :=
  match answer with
  | .ok result =>
    o = { name := name, resource := resource, progress := result.progress, done := true,
          result := some result, fault := none }
  | .error e =>
    ∃ last, (told.filterMap Event.progress?).getLast? = some last ∧
      o = { name := name, resource := resource, progress := last, done := true, result := none,
            fault := some { code := .internal, message := "Build failed: " ++ e.message } }

namespace World

variable {σ : Type} {w : World σ} {s : σ} {job : Job} {e : Engine}

/-- A worker that gets a place and finds its operation runs the build and then concludes. -/
theorem work_eq {p : Progress} (hopen : e.poolOpen = true)
    (hp : e.registry.progress? job.name = some p)
    {answer : Except PipelineError BuildResult × Progress} {x : σ × Engine}
    (hbuild : ((Pipeline.run job.lake job.target job.options p).answerWith
      (Worker.serve job.name)).answerWith (w.serve job) (s, e) = (answer, x)) :
    w.work job s e = (Worker.conclude job.name answer.1).answerWith (w.serve job) x := by
  have hbind := congrFun (answerWith_bind (w.serve job)
    ((Pipeline.run job.lake job.target job.options p).answerWith (Worker.serve job.name))
    fun r => Worker.conclude job.name r.1) (s, e)
  have hstart : w.work job s e =
      ((Pipeline.run job.lake job.target job.options p).answerWith (Worker.serve job.name) >>=
        fun r => Worker.conclude job.name r.1).answerWith (w.serve job) (s, e) := by
    show ((if e.poolOpen = true then _ else _ : Program Worker.interface Unit).answerWith
      (w.serve job)) (s, e) = _
    rw [hopen]
    show ((match e.registry.progress? job.name with
      | none => _
      | some p => _ : Program Worker.interface Unit).answerWith (w.serve job)) (s, e) = _
    rw [hp]
  rw [hstart, hbind]
  show (fun y : _ × σ × Engine => (Worker.conclude job.name y.1.1).answerWith (w.serve job) y.2)
    (((Pipeline.run job.lake job.target job.options p).answerWith
      (Worker.serve job.name)).answerWith (w.serve job) (s, e)) = _
  rw [hbuild]

/-- A worker that finds its operation pending leaves it as its build alone does. -/
theorem reports_of_holds {p : Progress} (hp : p.IsNew) (hopen : e.poolOpen = true)
    {resource : ResourceName} (he : Holds e job (.pending job.name resource p)) :
    ∃ o, (w.work job s e).2.2.registry.get? job.name = some o ∧
      o.Reports job.name resource (w.runAlone job.lake job.target job.options p s).1.1
        (w.runAlone job.lake job.target job.options p s).2.2 := by
  have hprogress : e.registry.progress? job.name = some p := by
    obtain ⟨⟨d, hd, hoperation⟩, -⟩ := he
    rw [Registry.progress?, Registry.get?, hd.1, Option.map_some, Option.map_some, hoperation]
    rfl
  obtain ⟨run, ⟨answer, q⟩, s', hreach, hanswers, halone⟩ :=
    exists_run w (Pipeline.run job.lake job.target job.options p) s []
  rw [List.nil_append] at halone
  have hforward := (Pipeline.forward_of_reaches hp hreach).pairwise
  obtain ⟨hstage, hlast⟩ := Pipeline.stage_of_reaches hp hreach
  have hend := ensures_iff.mp
    (Pipeline.ensures_completed_last job.lake job.target job.options p) run _ hreach
  rw [List.nil_append] at hend
  cases answer with
  | ok result =>
    obtain ⟨before, hplain, rfl, -⟩ := hend
    obtain ⟨mid, hbefore, hmid⟩ := hreach.exists_between
    obtain ⟨s₁, hanswers₁, -⟩ := hanswers.exists_between
    rw [Pipeline.shown_append, ← List.cons_append] at hforward
    obtain ⟨e', he', heq⟩ :=
      follows hanswers₁ hbefore hplain (List.pairwise_append.mp hforward).1 he
    -- the completion is all that is left of the build
    obtain ⟨next, rfl, hnext⟩ : ∃ next : Unit → _, mid = .ask (.tell (.completed result)) next ∧
        next () = .done (.ok result, q) := by
      cases hmid with
      | @ask _ next _ _ _ h => exact ⟨next, rfl, (reaches_nil_iff.mp h).symm⟩
    have hbuild : ((Pipeline.run job.lake job.target job.options p).answerWith
        (Worker.serve job.name)).answerWith (w.serve job) (s, e) =
        ((.ok result, q), (w.now s₁).2, (e'.send (w.now s₁).1 (.complete job.name result)).1) := by
      rw [heq]
      show ((next ()).answerWith (Worker.serve job.name)).answerWith (w.serve job) _ = _
      rw [hnext]
      rfl
    have hwork := work_eq hopen hprogress hbuild
    refine ⟨_, by rw [hwork]; exact he'.complete result _, ?_⟩
    rw [runAlone, halone]
    rfl
  | error err =>
    have hnot : err ≠ .cancelled := ne_cancelled hp hanswers hreach
    obtain ⟨e', he', heq⟩ := follows hanswers hreach hend hforward he
    have hwork := work_eq hopen hprogress heq
    have hconclude : w.work job s e = ((), (w.now s').2,
        (e'.send (w.now s').1 (.fail job.name ("Build failed: " ++ err.message))).1) := by
      rw [hwork]
      cases err with
      | cancelled => exact absurd rfl hnot
      | _ => rfl
    rw [hlast, Option.getD_some] at he'
    have hfailed : (q.advance .failed).1 = q :=
      Progress.advance_self (hstage.trans (PipelineError.stage_eq_failed_iff.mpr hnot))
    refine ⟨_, by rw [hconclude, he'.fail], ?_⟩
    rw [runAlone, halone]
    refine ⟨q, hlast, ?_⟩
    rw [hfailed]
    rfl

end World

/-! ## A build that is submitted -/

/-- An engine that has come to where it is by messages, whose pool is open and where no operation
is under way; a name, and the token that it will draw next, have not been used. -/
structure Engine.Idle (e : Engine) (name : OperationName) : Prop where
  history : ∃ messages, e.registry = Registry.empty.after e.retention messages
  isOpen : e.poolOpen = true
  settled : ∀ other d, ¬ e.registry.Open other d
  newName : e.registry.entryOf? name = none
  newToken : e.registry.tripped ⟨e.nextToken⟩ = false

/-- An idle engine admits a build under a new name, and its worker finds it pending. -/
theorem Engine.Idle.submitAs {e : Engine} {name : OperationName} (he : e.Idle name)
    (lake : Workspace) (resource : ResourceName) (target : String) (options : BuildOptions)
    (p : Progress) :
    ∃ job, (e.submitAs name lake resource target options p).1.queue = e.queue ++ [job] ∧
      (e.submitAs name lake resource target options p).2.1 = .pending name resource p ∧
      (e.submitAs name lake resource target options p).1.poolOpen = true ∧
      job.name = name ∧ job.lake = lake ∧ job.target = target ∧ job.options = options ∧
      World.Holds (e.submitAs name lake resource target options p).1 job
        (.pending name resource p) := by
  obtain ⟨messages, hregistry⟩ := he.history
  have hagrees : e.registry.Agrees := by
    rw [hregistry]
    exact Registry.Agrees.empty.after e.retention messages
  have hadmissible : e.registry.Admissible name resource :=
    ⟨he.newName, fun m d hd => absurd hd (he.settled m d)⟩
  let entry : Entry := { operation := .pending name resource p, token := ⟨e.nextToken⟩ }
  let job : Job := ⟨name, lake, target, options, ⟨e.nextToken⟩⟩
  have hsubmit : e.submitAs name lake resource target options p =
      ({ e with
          registry := e.registry.addEntry name resource entry
          nextToken := e.nextToken + 1
          queue := e.queue ++ [job] },
        entry.operation, entry.token) := by
    rcases Registry.register_cases e.registry name resource p entry.token with
      ⟨-, -, heq⟩ | ⟨hbusy, -⟩
    · simp only [entry] at heq
      simp [Engine.submitAs, Engine.drawToken, heq, Operation.pending, Engine.enqueue, job, entry]
    · exact absurd (hagrees.admissible_iff.mp hadmissible) hbusy
  have hopen : (e.registry.addEntry name resource entry).Open name entry :=
    ⟨by rw [Registry.entryOf?_addEntry, if_pos rfl], rfl⟩
  rw [hsubmit]
  exact ⟨job, rfl, rfl, he.isOpen, rfl, rfl, rfl, rfl, ⟨entry, hopen, rfl⟩, he.newToken⟩

/-- **A submitted build ends as the build alone.**  Let a build be submitted to an idle engine under
a name that is new there, wherever the name comes from, and its worker be run to its end, in any
world that leaves the engine to it.  Then the operation that was answered is done, and it says what
the build has come to that is run alone, in the same world and from the same progress: its result
with the progress in it and no fault, or no result, the fault with what is said of the error, and
the progress that was shown last. -/
theorem World.submitted_as_alone {σ : Type} (w : World σ) (s : σ) (e : Engine)
    {name : OperationName} (he : e.Idle name) (resource : ResourceName) (lake : Workspace)
    (target : String) (options : BuildOptions) (branch : String) (time : UInt64) :
    let p := Progress.initial lake target branch time
    let submitted := e.submitAs name lake resource target options p
    let alone := w.runAlone lake target options p s
    ∃ job o, submitted.1.queue = e.queue ++ [job] ∧
      submitted.2.1 = .pending name resource p ∧
      (w.work job s submitted.1).2.2.registry.get? name = some o ∧
      o.Reports name resource alone.1.1 alone.2.2 := by
  intro p submitted alone
  obtain ⟨job, hqueue, hanswer, hopen, rfl, rfl, rfl, rfl, hholds⟩ :=
    he.submitAs lake resource target options p
  obtain ⟨o, hget, hreports⟩ :=
    reports_of_holds (w := w) (s := s) ⟨job.lake, job.target, branch, time, rfl⟩ hopen hholds
  exact ⟨job, o, hqueue, hanswer, hget, hreports⟩

/-- A world without the generator of build files, whose clock counts the questions. -/
def World.barren : World Nat where
  call
    | .codegen _, n => (([], .error (.other "gazelle is missing")), n + 1)
    | c, n => (c.success, n + 1)
  now n := (UInt64.ofNat n, n + 1)

/-- A build that is submitted to a new engine in such a world ends with the fault that says
so. -/
theorem World.submitted_as_alone_barren :
    ∃ job o,
      (Engine.submitAs { retention := 0 } (.below ⟨"lakes/a"⟩ "9f1c-4e") {} ⟨"lakes/a"⟩ "." {}
        (.initial {} "." "main" 0)).1.queue = [job] ∧
        (barren.work job 0
            (Engine.submitAs { retention := 0 } (.below ⟨"lakes/a"⟩ "9f1c-4e") {} ⟨"lakes/a"⟩ "."
              {} (.initial {} "." "main" 0)).1).2.2.registry.get?
          (.below ⟨"lakes/a"⟩ "9f1c-4e") = some o ∧
        o.done = true ∧ o.progress.stage = .failed ∧ o.result = none ∧
        o.fault = some
          { code := .internal
            message := "Build failed: Code generation failed: gazelle is missing" } := by
  have hidle : Engine.Idle { retention := 0 } (.below ⟨"lakes/a"⟩ "9f1c-4e") :=
    { history := ⟨[], rfl⟩
      isOpen := rfl
      settled := fun other d hd => nomatch hd.1
      newName := rfl
      newToken := rfl }
  obtain ⟨job, o, hqueue, -, hget, last, hlast, rfl⟩ :=
    submitted_as_alone barren 0 _ hidle ⟨"lakes/a"⟩ {} "." {} "main" 0
  obtain rfl := Option.some.inj hlast
  exact ⟨job, _, hqueue, hget, rfl, rfl, rfl, rfl⟩

end ProtoBuild
