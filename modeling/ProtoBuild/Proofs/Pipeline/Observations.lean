import ProtoBuild.Proofs.Pipeline.Attempts

/-!
# What is shown when a call starts

Somebody who polls a build sees what it has pushed last, while a collaborator works for it.  To
compare this with the progress that the build has at that moment, one has to look at the progress
where the call is made.  A part of a build takes the way in which it asks as an argument, and
`Work.callObserved` tells the progress first, in a form that the parts themselves never use.  So an
observation can be told from what the listener is shown, and nothing else changes: every run of the
build or of the publish phase is what is left of an observed run (`Observes`).

`shown_when_called` is the comparison.  Before the cache is cleared the listener is shown the
progress as it is.  Before a unit is built and before an action is run it is not: what was pushed
last was pushed before the start of the unit or of the action was recorded, so the record of the
start is not seen until the call is over (`Lag`).
-/

namespace ProtoBuild

namespace Progress

/-- The progress with the start of a unit recorded. -/
def begun (unit : String) (time : UInt64) (p : Progress) : Progress :=
  (p.modifyPhase .build fun r =>
    (r.setSubPhase ("Building " ++ unit)).addLog ("Building: " ++ unit)).modifyUnit unit
      fun u => (u.move .building time).1

theorem log_begun (p : Progress) (unit : String) (time : UInt64)
    (hopen : (p.phases.get .build).isFinal = false) :
    ((p.begun unit time).phases.get .build).log =
      (p.phases.get .build).log ++ ["Building: " ++ unit] := by
  have hnamed : ((p.phases.get .build).setSubPhase ("Building " ++ unit)).isFinal = false :=
    ((p.phases.get .build).noted_setSubPhase _).isFinal_eq.trans hopen
  have hrecord : (p.begun unit time).phases.get .build =
      ((p.phases.get .build).setSubPhase ("Building " ++ unit)).addLog ("Building: " ++ unit) := by
    show (p.modifyPhase .build _).phases.get .build = _
    rw [get_modifyPhase_self]
  rw [hrecord, PhaseRecord.addLog, hnamed, if_neg Bool.false_ne_true]
  simp [PhaseRecord.setSubPhase, hopen]

theorem statusOf?_begun (p : Progress) (unit : String) (time : UInt64)
    (hpending : p.statusOf? unit = some .pending) :
    (p.begun unit time).statusOf? unit = some .building := by
  obtain ⟨u, hu, hstatus⟩ := Option.map_eq_some_iff.mp hpending
  have hbegun : (p.begun unit time).units.get? unit = some (u.move .building time).1 :=
    get?_modifyUnit_self (p := p.modifyPhase .build _) hu
  rw [statusOf?, hbegun, Option.map_some, UnitRecord.status_move, hstatus]
  rfl

/-- The progress with the start of a publish action recorded. -/
def publishing (label : String) (p : Progress) : Progress :=
  p.modifyPhase .publish (·.setSubPhase ("Publishing " ++ label))

/-- What the phase did before is not seen in the start of an action. -/
theorem publishing_setSubPhase (p : Progress) (label text : String) :
    (p.modifyPhase .publish (·.setSubPhase text)).publishing label = p.publishing label := by
  have htwice : ∀ r : PhaseRecord, (r.setSubPhase text).setSubPhase ("Publishing " ++ label) =
      r.setSubPhase ("Publishing " ++ label) := by
    intro r
    by_cases hfinal : r.isFinal = true
    · rw [PhaseRecord.setSubPhase_of_isFinal hfinal]
    · have hopen : ¬ ({ r with subPhase := text } : PhaseRecord).isFinal = true := hfinal
      rw [PhaseRecord.setSubPhase.eq_1 r text, if_neg hfinal, PhaseRecord.setSubPhase,
        PhaseRecord.setSubPhase, if_neg hfinal, if_neg hopen]
  exact congrArg (p.modifyPhase .publish) (funext htwice)

end Progress

namespace Pipeline

open Work
open Program (Reaches reaches_ask_done_iff reaches_bind_iff reaches_replay)

/-! ## Observations -/

/-- Tells the progress as a result.  Neither phase tells of a result. -/
def Work.observe : Work Unit := do
  tell (.completed ((← get).result 0))

/-- Calls a collaborator after the progress was observed. -/
def Work.callObserved (c : Call) : Work c.Answer := do
  observe
  call c

/-- The progress is observed. -/
def observed (p : Progress) : Exchange interface := told (.completed (p.result 0))

/-- Whether an exchange is an observation. -/
def isObservation : Exchange interface → Bool
  | ⟨.tell (.completed _), _⟩ => true
  | _ => false

/-- A run without its observations. -/
def unobserved (run : Run) : Run := run.filter fun x => ! isObservation x

variable {α β : Type} {run more before : Run} {p q start : Progress} {c : Call} {k : Nat}
  {E : PipelineError → Assertion}

@[simp] theorem ensures_callObserved {Q : c.Answer → Assertion} :
    Ensures (callObserved c) Q E run p ↔
      ∀ answer, Q answer (run ++ [observed p, called c answer]) p := by
  simp only [callObserved, observe, ensures_bind, ensures_get, ensures_tell, ensures_call,
    List.append_assoc]
  exact Iff.rfl

/-! ## Nothing else changes -/

/-- Every complete run of one part is, but for observations, a run of another part with the same
end. -/
structure Observes (work plain : Work α) : Prop where
  exists_run : ∀ p run r, Reaches (Work.start plain p) run (.done r) →
    ∃ run', Reaches (Work.start work p) run' (.done r) ∧ unobserved run' = unobserved run

namespace Observes

variable {work plain : Work α} {next next' : α → Work β}

theorem refl (work : Work α) : Observes work work := ⟨fun _ run _ h => ⟨run, h, rfl⟩⟩

theorem call (c : Call) : Observes (callObserved c) (Work.call c) := by
  refine ⟨fun p run r h => ?_⟩
  obtain ⟨answer, rest, rfl, hrest⟩ := reaches_ask_done_iff.mp h
  exact ⟨observed p :: called c answer :: rest, .ask (.ask hrest), rfl⟩

theorem bind (h : Observes work plain) (hnext : ∀ a, Observes (next a) (next' a)) :
    Observes (work >>= next) (plain >>= next') := by
  refine ⟨fun p run r hrun => ?_⟩
  rw [start_bind, reaches_bind_iff] at hrun
  obtain ⟨first, second, ⟨end₁, p₁⟩, rfl, hfirst, hsecond⟩ := hrun
  obtain ⟨first', hfirst', heq⟩ := h.exists_run p first _ hfirst
  rw [start_bind]
  simp only [reaches_bind_iff]
  cases end₁ with
  | error e =>
    refine ⟨first' ++ second, ⟨first', second, _, rfl, hfirst', hsecond⟩, ?_⟩
    rw [unobserved, unobserved, List.filter_append, List.filter_append]
    exact congrArg (· ++ _) heq
  | ok a =>
    obtain ⟨second', hsecond', heq'⟩ := (hnext a).exists_run p₁ second _ hsecond
    refine ⟨first' ++ second', ⟨first', second', _, rfl, hfirst', hsecond'⟩, ?_⟩
    rw [unobserved, unobserved, List.filter_append, List.filter_append]
    exact congrArg₂ (· ++ ·) heq heq'

/-- What stands after an error does not matter. -/
theorem throw_bind (e : PipelineError) (next next' : α → Work β) :
    Observes (throw e >>= next) (throw e >>= next') := by
  show Observes (throw e : Work β) (throw e)
  exact .refl _

end Observes

theorem observes_cleanCache (lake : Workspace) :
    Observes (cleanCache lake callObserved) (cleanCache lake) := by
  unfold cleanCache
  exact .bind (.refl _) fun _ => .bind (.refl _) fun _ => .bind (.call _) fun _ => .refl _

theorem observes_resolveUnits (lake : Workspace) (mode : ResolutionMode) (target : String) :
    Observes (resolveUnits lake mode target callObserved) (resolveUnits lake mode target) := by
  cases mode with
  | direct => exact .refl _
  | isolated =>
    unfold resolveUnits
    exact .bind (.refl _) fun _ => .bind (.call _) fun _ => .refl _

theorem observes_buildUnit (lake : Workspace) (args : List String) (unit : String) :
    Observes (buildUnit lake args unit callObserved) (buildUnit lake args unit) := by
  unfold buildUnit
  refine .bind (.refl _) fun _ => .bind (.refl _) fun _ => ?_
  exact .bind (.refl _) fun _ => .bind (.call _) fun _ => .refl _

theorem observes_buildUnits (lake : Workspace) (args : List String) (goOn : Bool)
    (units : List String) :
    Observes (buildUnits lake args goOn units callObserved) (buildUnits lake args goOn units) := by
  induction units with
  | nil => exact .refl _
  | cons unit rest ih =>
    rw [buildUnits, buildUnits]
    refine .bind (.refl _) fun stopped => ?_
    dsimp only
    split
    · exact .bind (.refl _) fun _ => .bind (.refl _) fun _ => .throw_bind _ _ _
    · refine .bind (observes_buildUnit lake args unit) fun answer => ?_
      cases answer with
      | ok _ => exact .bind (.refl _) fun _ => ih
      | error reason =>
        dsimp only
        split
        · exact .bind (.refl _) fun _ => .bind (.refl _) fun _ => .bind ih fun _ => .refl _
        · exact .refl _

theorem observes_build (lake : Workspace) (target : String) (options : RunOptions) :
    Observes (build lake target options callObserved) (build lake target options) := by
  unfold build
  extract_lets observeAll buildAll
  have hbuildAll : Observes (observeAll ()) (buildAll ()) := by
    refine .bind (observes_resolveUnits _ _ _) fun units => ?_
    dsimp only
    split
    · exact .refl _
    · exact .bind (.refl _) fun _ => .bind (.refl _) fun _ => .bind (.refl _) fun _ =>
        .bind (observes_buildUnits _ _ _ _) fun _ => .refl _
  split
  · exact .bind (observes_cleanCache lake) fun _ => hbuildAll
  · exact hbuildAll

theorem observes_publishOne (lake : Workspace) (label unit : String) :
    Observes (publishOne lake label unit callObserved) (publishOne lake label unit) := by
  unfold publishOne
  exact .bind (.refl _) fun _ => .bind (.call _) fun _ => .refl _

theorem observes_publishAll (lake : Workspace) (plan : List (String × String)) :
    Observes (publishAll lake plan callObserved) (publishAll lake plan) := by
  induction plan with
  | nil => exact .refl _
  | cons step rest ih =>
    rw [publishAll, publishAll]
    exact .bind (observes_publishOne _ _ _) fun _ => .bind ih fun _ => .refl _

theorem observes_publish (lake : Workspace) (target : String) :
    Observes (publish lake target callObserved) (publish lake target) := by
  unfold publish
  refine .bind (.refl _) fun _ => .bind (.call _) fun _ => .bind (.refl _) fun labels =>
    .bind (.refl _) fun built => ?_
  dsimp only
  split
  · exact .refl _
  · exact .bind (observes_publishAll _ _) fun _ => .refl _

/-! ## What is shown -/

/-- What was shown last when a call starts, compared with the progress at that moment.  If nothing
was shown yet, the progress is compared with that of the beginning. -/
def Lag (start : Progress) (before : Run) (p : Progress) : Call → Prop
  | .clean _ => lastShown? before = some p
  | .build _ _ pattern => ∃ unit time q, pattern = Path.pattern unit ∧
      lastShown? before = some q ∧ p = q.begun unit time
  | .run _ label _ => p = ((lastShown? before).getD start).publishing label
  | _ => True

/-- Every call of a run was observed, and what was shown lags behind. -/
def Lagging (start : Progress) (run : Run) : Prop :=
  ∀ before c answer after, run = before ++ called c answer :: after →
    ∃ front p, before = front ++ [observed p] ∧ Lag start front p c

theorem Lagging.nil : Lagging start [] := by
  intro before c answer after h
  exact absurd h (by simp)

/-- What is no call does not matter. -/
theorem Lagging.silent (h : Lagging start run) (hmore : calls more = []) :
    Lagging start (run ++ more) := by
  intro before c answer after heq
  rcases List.append_eq_append_iff.mp heq with ⟨rest, rfl, hrest⟩ | ⟨rest, rfl, hrest⟩
  · rw [hrest, calls_append, calls_called] at hmore
    exact absurd hmore (by simp)
  · cases rest with
    | nil =>
      rw [List.nil_append] at hrest
      rw [← hrest, calls_called] at hmore
      exact absurd hmore (by simp)
    | cons x rest =>
      obtain ⟨rfl, rfl⟩ := List.cons.inj hrest
      exact h before c answer rest rfl

theorem Lagging.call (h : Lagging start run) (hlag : Lag start run p c) (answer : c.Answer) :
    Lagging start (run ++ [observed p, called c answer]) := by
  intro before c' answer' after heq
  have hobserved : Lagging start (run ++ [observed p]) := h.silent rfl
  rw [List.append_cons] at heq
  rcases List.append_eq_append_iff.mp heq with ⟨rest, rfl, hrest⟩ | ⟨rest, hbefore, hrest⟩
  · cases rest with
    | nil =>
      cases hrest
      exact ⟨run, p, List.append_nil _, hlag⟩
    | cons x rest => exact absurd (congrArg List.length hrest) (by simp)
  · cases rest with
    | nil =>
      cases hrest
      exact ⟨run, p, by rw [List.append_nil] at hbefore; exact hbefore.symm, hlag⟩
    | cons x rest =>
      obtain ⟨rfl, -⟩ := List.cons.inj hrest
      exact hobserved before c' answer' rest hbefore

/-- What was shown last is what is pushed. -/
@[simp] theorem lastShown?_push (run : Run) (p : Progress) :
    lastShown? (run ++ [told (.updated p)]) = some p :=
  lastShown?_append rfl

/-- A run that pushes nothing shows nothing else. -/
theorem lastShown?_silent (hmore : (events more).filterMap Event.progress? = []) :
    lastShown? (run ++ more) = lastShown? run := by
  rw [lastShown?, events_append, List.filterMap_append, hmore, List.append_nil, lastShown?]

/-- An observed call, after which the progress is as it was. -/
theorem Lagging.ensures_call (h : Lagging start run) (c : Call) (hlag : Lag start run p c) :
    Ensures (callObserved c) (fun _ run q => Lagging start run ∧ q = p) E run p :=
  ensures_callObserved.mpr fun answer => ⟨h.call hlag answer, rfl⟩

/-- What calls nobody keeps it so. -/
theorem keeps_lagging :
    Keeps AnyChange (Request.From 8) (fun run _ => Lagging start run) where
  modify _ _ h := h
  request q answer hq h := by
    refine h.silent ?_
    cases q with
    | call c =>
      have hrank : c.rank ≤ 7 := by cases c <;> simp [Call.rank]
      exact absurd hq (Nat.not_le.mpr (Nat.lt_succ_of_le hrank))
    | _ => rfl
  push h := h.silent rfl

theorem lagging_cleanCache (lake : Workspace) (h : Lagging start run) :
    Ensures (cleanCache lake callObserved) (fun _ run _ => Lagging start run)
      (fun _ run _ => Lagging start run) run p := by
  simp only [cleanCache, ensures_bind, ensures_modifyPhase, ensures_push]
  refine Ensures.mono ((h.silent rfl).ensures_call (.clean lake.root) (lastShown?_push _ _)) ?_
    fun _ _ _ h => h
  rintro answer run p ⟨h, rfl⟩
  cases answer with
  | error e => exact h
  | ok _ => exact h

theorem lagging_resolveUnits (lake : Workspace) (mode : ResolutionMode) (target : String)
    (h : Lagging start run) :
    Ensures (resolveUnits lake mode target callObserved) (fun _ run _ => Lagging start run)
      (fun _ run _ => Lagging start run) run p := by
  cases mode with
  | direct => exact h
  | isolated =>
    simp only [resolveUnits, ensures_bind, ensures_modifyPhase]
    refine Ensures.mono (h.ensures_call (.discover lake.root target) trivial) ?_
      fun _ _ _ h => h
    rintro answer run p ⟨h, rfl⟩
    cases answer with
    | error e => exact h
    | ok units => exact h

theorem lagging_buildUnit (lake : Workspace) (args : List String) (unit : String)
    (h : Lagging start run) (hshown : lastShown? run = some p) :
    Ensures (buildUnit lake args unit callObserved) (fun _ run _ => Lagging start run)
      (fun _ run _ => Lagging start run) run p := by
  simp only [buildUnit, ensures_bind, ensures_modifyPhase, ensures_now, ensures_modifyUnit]
  intro started
  have htimed : lastShown? (run ++ [timed started]) = some p :=
    (lastShown?_silent rfl).trans hshown
  refine Ensures.mono ((h.silent rfl).ensures_call (.build lake.root args (Path.pattern unit))
    ⟨unit, started, p, rfl, htimed, rfl⟩) ?_ fun _ _ _ h => h
  rintro answer run p ⟨h, rfl⟩ ended
  have hended : Lagging start (run ++ [timed ended]) := h.silent rfl
  cases answer with
  | error e =>
    dsimp only
    split
    · exact hended
    · exact hended
  | ok output =>
    simp only [ensures_bind, ensures_modifyUnit]
    split
    · simp only [ensures_bind, ensures_modifyUnit]
      split
      · exact hended
      · exact hended
    · exact hended

theorem lagging_buildUnits (lake : Workspace) (args : List String) (goOn : Bool)
    (units : List String) (h : Lagging start run) (hshown : lastShown? run = some p) :
    Ensures (buildUnits lake args goOn units callObserved) (fun _ run _ => Lagging start run)
      (fun _ run _ => Lagging start run) run p := by
  induction units generalizing run p with
  | nil => exact h
  | cons unit rest ih =>
    simp only [buildUnits, ensures_bind, ensures_isCancelled]
    intro stopped
    have hlooked : Lagging start (run ++ [looked stopped]) := h.silent rfl
    cases stopped with
    | true =>
      simp only [if_true, ensures_bind]
      refine ((made_skipUnits _).free.ensures keeps_lagging hlooked).mono (fun _ run p h => ?_)
        fun _ _ _ h => h
      simp only [ensures_push, ensures_throw]
      exact h.silent rfl
    | false =>
      simp only [Bool.false_eq_true, if_false, ensures_bind]
      have hlast : lastShown? (run ++ [looked false]) = some p :=
        (lastShown?_silent rfl).trans hshown
      refine (lagging_buildUnit lake args unit hlooked hlast).mono (fun answer run p h => ?_)
        fun _ _ _ h => h
      -- the end of the unit is pushed before the next one starts
      cases answer with
      | ok _ =>
        simp only [ensures_bind, ensures_push]
        exact ih (h.silent rfl) (lastShown?_push _ _)
      | error reason =>
        dsimp only
        split
        · simp only [ensures_bind, ensures_modifyPhase, ensures_push, ensures_pure]
          exact ih (h.silent rfl) (lastShown?_push _ _)
        · simp only [ensures_bind, ensures_now, ensures_modifyPhase, ensures_push, ensures_throw]
          exact fun time => (h.silent rfl).silent rfl

theorem lagging_build (lake : Workspace) (target : String) (options : RunOptions)
    (h : Lagging start run) :
    Ensures (build lake target options callObserved) (fun _ run _ => Lagging start run)
      (fun _ run _ => Lagging start run) run p := by
  unfold build
  extract_lets buildAll
  have hbuildAll : ∀ (run : Run) (p : Progress), Lagging start run →
      Ensures (buildAll ()) (fun _ run _ => Lagging start run)
        (fun _ run _ => Lagging start run) run p := by
    intro run p h
    refine (lagging_resolveUnits lake options.mode target h).bind fun units run p h => ?_
    split
    · exact (made_skip .build _).free.ensures keeps_lagging h
    · simp only [ensures_bind, ensures_get, ensures_modify, ensures_push]
      refine (lagging_buildUnits lake _ _ units (h.silent rfl) (lastShown?_push _ _)).mono
        (fun failed run p h => ?_) fun _ _ _ h => h
      exact (made_endBuild _ _).free.ensures keeps_lagging h
  split
  · exact (lagging_cleanCache lake h).bind fun _ run p h => hbuildAll run p h
  · exact hbuildAll run p h

/-! ## Publishing -/

/-- When an action starts, what was shown last lacks nothing but the start. -/
def Upto (start : Progress) (run : Run) (p : Progress) : Prop :=
  ∀ label, p.publishing label = ((lastShown? run).getD start).publishing label

theorem lagging_publishOne (lake : Workspace) (label unit : String) (h : Lagging start run)
    (hupto : Upto start run p) :
    Ensures (publishOne lake label unit callObserved)
      (fun _ run p => Lagging start run ∧ Upto start run p) (fun _ run _ => Lagging start run)
      run p := by
  have hpushed : ∀ (run : Run) (p : Progress), Upto start (run ++ [told (.updated p)]) p := by
    intro run p label
    rw [lastShown?_push, Option.getD_some]
  simp only [publishOne, ensures_bind, ensures_modifyPhase]
  refine Ensures.mono (h.ensures_call (.run lake.root label []) (hupto label)) ?_
    fun _ _ _ h => h
  rintro answer run p ⟨h, rfl⟩
  cases answer with
  | ok output =>
    simp only [ensures_bind, ensures_now, ensures_modifyUnit, ensures_modifyPhase, ensures_push,
      ensures_pure]
    exact fun time => ⟨(h.silent rfl).silent rfl, hpushed _ _⟩
  | error e =>
    simp only [ensures_bind, ensures_modifyUnit, ensures_modifyPhase, ensures_push, ensures_pure]
    exact ⟨h.silent rfl, hpushed _ _⟩

theorem lagging_publishAll (lake : Workspace) (plan : List (String × String))
    (h : Lagging start run) (hupto : Upto start run p) :
    Ensures (publishAll lake plan callObserved) (fun _ run _ => Lagging start run)
      (fun _ run _ => Lagging start run) run p := by
  induction plan generalizing run p with
  | nil => exact h
  | cons step rest ih =>
    refine (lagging_publishOne lake step.1 step.2 h hupto).bind ?_
    rintro ok run p ⟨h, hupto⟩
    exact (ih h hupto).bind fun published run p h => h

theorem lagging_publish (lake : Workspace) (target : String) :
    Ensures (publish lake target callObserved) (fun _ run _ => Lagging start run)
      (fun _ run _ => Lagging start run) [] start := by
  simp only [publish, ensures_bind, ensures_modifyPhase]
  refine ensures_callObserved.mpr fun answer => ?_
  have hcalled := (@Lagging.nil start).call (p := start.modifyPhase .publish
    (·.setSubPhase "Discovering publish targets")) (c := .query lake.root (publishQuery target))
      trivial answer
  cases answer with
  | error e => exact hcalled
  | ok labels =>
    simp only [ensures_orThrow_ok, builtUnits, ensures_bind, ensures_get, ensures_pure]
    split
    · exact fun time => hcalled.silent rfl
    · simp only [ensures_bind]
      -- nothing was pushed yet, so the progress is compared with that of the beginning
      exact (lagging_publishAll lake _ hcalled fun label =>
        start.publishing_setSubPhase label "Discovering publish targets").mono
          (fun _ _ _ h time => h.silent rfl) fun _ _ _ h => h

/-! ## All runs -/

/-- A request that shows no progress is no observation. -/
theorem isObservation_of_from {q : Request} (hq : q.From k) (answer : q.Answer) :
    isObservation ⟨q, answer⟩ = false := by
  cases q with
  | tell e => cases e <;> first | rfl | exact absurd hq (by simp [Request.From, Event.shown?])
  | _ => rfl

theorem unobserved_concat {x : Exchange interface} (h : unobserved run = run)
    (hx : isObservation x = false) : unobserved (run ++ [x]) = run ++ [x] := by
  have hlast : unobserved [x] = [x] := List.filter_cons_of_pos (by simp [hx])
  rw [unobserved, List.filter_append]
  exact congrArg₂ (· ++ ·) h hlast

/-- What holds however a part ends holds of its complete runs. -/
theorem holds_of_reaches {work : Work α} {P : Run → Prop}
    (h : Ensures work (fun _ run _ => P run) (fun _ run _ => P run) [] p)
    {r : Except PipelineError α × Progress}
    (hrun : Reaches (Work.start work p) run (.done r)) : P run := by
  have hall := Program.ensures_iff.mp h run r hrun
  rcases r with ⟨_ | _, q⟩
  · exact hall
  · exact hall

/-- A part that tells of no result has no observations in its runs. -/
theorem unobserved_of_made {M : (Progress → Progress) → Prop} {work : Work α}
    (h : Made M (Request.From k) work) {r : Except PipelineError α × Progress}
    (hrun : Reaches (Work.start work p) run (.done r)) : unobserved run = run := by
  have hkeeps : Keeps M (Request.From k) fun run _ => unobserved run = run :=
    ⟨fun _ _ h => h, fun _ answer hq h => unobserved_concat h (isObservation_of_from hq answer),
      fun h => unobserved_concat h rfl⟩
  exact holds_of_reaches (P := fun run => unobserved run = run) (h.ensures hkeeps rfl) hrun

/-- The runs of a part are those of an observed part without the observations, and what holds of
the observed ones holds of all. -/
theorem exists_observed {M : (Progress → Progress) → Prop} {work plain : Work α}
    (hobserves : Observes work plain) (hmade : Made M (Request.From k) plain)
    (hlagging : Ensures work (fun _ run _ => Lagging start run) (fun _ run _ => Lagging start run)
      [] start) {r : Except PipelineError α × Progress}
    (hrun : Reaches (Work.start plain start) run (.done r)) :
    ∃ run', Reaches (Work.start work start) run' (.done r) ∧ unobserved run' = run ∧
      Lagging start run' := by
  obtain ⟨run', hrun', heq⟩ := hobserves.exists_run start run r hrun
  exact ⟨run', hrun', heq.trans (unobserved_of_made hmade hrun),
    holds_of_reaches hlagging hrun'⟩

/-- **What is shown when a call starts.**  Every run of a build phase, and every run of a publish
phase, is an observed one without its observations.  In an observed run what was shown last before
the cache is cleared is the progress at that moment.  What was shown last before a unit is built is
that progress without the start of the unit, and what was shown last before an action is run is
that progress without the start of the action, where the progress that the phase began with stands
for what was shown before it.  The start of a unit is a line of the log and, if the unit is
waiting, its status: neither is shown before the call is over. -/
theorem shown_when_called (lake : Workspace) (target : String) (start : Progress) :
    (∀ options run r, Reaches (Work.start (build lake target options) start) run (.done r) →
      ∃ run', Reaches (Work.start (build lake target options callObserved) start) run' (.done r) ∧
        unobserved run' = run ∧ Lagging start run') ∧
    (∀ run r, Reaches (Work.start (publish lake target) start) run (.done r) →
      ∃ run', Reaches (Work.start (publish lake target callObserved) start) run' (.done r) ∧
        unobserved run' = run ∧ Lagging start run') ∧
    ∀ (q : Progress) unit time,
      ((q.phases.get .build).isFinal = false →
        ((q.begun unit time).phases.get .build).log =
          (q.phases.get .build).log ++ ["Building: " ++ unit]) ∧
      (q.statusOf? unit = some .pending →
        (q.begun unit time).statusOf? unit = some .building) := by
  refine ⟨fun options run r hrun => ?_, fun run r hrun => ?_, fun q unit time => ⟨?_, ?_⟩⟩
  · exact exists_observed (observes_build lake target options)
      (made_build (Nat.le_refl 3) lake target options) (lagging_build lake target options .nil) hrun
  · exact exists_observed (observes_publish lake target)
      (made_publish (Nat.le_refl 6) lake target) (lagging_publish lake target) hrun
  · exact q.log_begun unit time
  · exact q.statusOf?_begun unit time

/-- The answers to a build of the whole lake that has one label to publish. -/
def oneLabel : (q : Request) → q.Answer
  | .call (.query _ _) => .ok ["//:lake_java_publish"]
  | q => success q

/-- A build that clears the cache first, the start of its unit, and the publishing of one
action. -/
theorem shown_when_called_after_clean :
    ∃ (lake : Workspace) (start waiting built : Progress) (run : Run) (published : Run)
      (r r' : Except PipelineError Unit × Progress),
      Reaches (Work.start (build lake "." { clean := true }) start) run (.done r) ∧
      (calls run).map (fun x => x.1.rank) = [3, 5] ∧
      (∃ run', Reaches (Work.start (build lake "." { clean := true } callObserved) start) run'
        (.done r) ∧ unobserved run' = run ∧ Lagging start run') ∧
      (waiting.phases.get .build).isFinal = false ∧ waiting.statusOf? "." = some .pending ∧
      ((waiting.begun "." 0).phases.get .build).log =
        (waiting.phases.get .build).log ++ ["Building: ."] ∧
      (waiting.begun "." 0).statusOf? "." = some .building ∧
      Reaches (Work.start (publish lake ".") built) published (.done r') ∧
      (calls published).map (fun x => x.1.rank) = [6, 7] ∧
      ∃ run', Reaches (Work.start (publish lake "." callObserved) built) run' (.done r') ∧
        unobserved run' = published ∧ Lagging built run' := by
  let lake : Workspace := { root := "/lake" }
  let start := Progress.initial lake "." "main" 0
  let waiting := start.withUnits ["."] "1"
  let built := waiting.modifyUnit "." fun u => { u with status := .built }
  have hbuild := reaches_replay success (Work.start (build lake "." { clean := true }) start)
  have hpublish := reaches_replay oneLabel (Work.start (publish lake ".") built)
  have hopen : (waiting.phases.get .build).isFinal = false := rfl
  have hpending : waiting.statusOf? "." = some .pending := rfl
  obtain ⟨hbuilds, -, hbegins⟩ := shown_when_called lake "." start
  obtain ⟨hlog, hstatus⟩ := hbegins waiting "." 0
  obtain ⟨-, hpublishes, -⟩ := shown_when_called lake "." built
  exact ⟨lake, start, waiting, built, _, _, _, _, hbuild, rfl, hbuilds _ _ _ hbuild, hopen,
    hpending, hlog hopen, hstatus hpending, hpublish, rfl, hpublishes _ _ hpublish⟩

/-- A build of one unit: while it is built, the listener was shown that it waits. -/
theorem building_not_shown :
    ∃ (lake : Workspace) (target : String) (options : RunOptions) (start : Progress) (run : Run)
      (r : Except PipelineError Unit × Progress),
      Reaches (Work.start (build lake target options callObserved) start) run (.done r) ∧
      ∃ front p args pattern answer after q,
        run = front ++ [observed p] ++
          called (.build lake.root args pattern) answer :: after ∧
        lastShown? front = some q ∧ q ≠ p ∧
        q.statusOf? target = some .pending ∧ p.statusOf? target = some .building := by
  let lake : Workspace := { root := "/lake" }
  let start := Progress.initial lake "." "main" 0
  let waiting := start.withUnits ["."] (Version.onBranch lake.version start.branch)
  have hpending : waiting.statusOf? "." = some .pending := rfl
  have hbuilding : (waiting.begun "." 0).statusOf? "." = some .building :=
    waiting.statusOf?_begun "." 0 hpending
  have hne : waiting ≠ waiting.begun "." 0 := by
    intro heq
    rw [← heq, hpending] at hbuilding
    exact absurd hbuilding (by decide)
  exact ⟨lake, ".", {}, start, _, _,
    reaches_replay success (Work.start (build lake "." {} callObserved) start),
    [told (.updated waiting), looked false, timed 0], waiting.begun "." 0, _, _, _, _, waiting,
    rfl, rfl, hne, hpending, hbuilding⟩

end Pipeline
end ProtoBuild
