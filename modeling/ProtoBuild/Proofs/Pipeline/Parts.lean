import ProtoBuild.Proofs.Pipeline.Order
import ProtoBuild.Proofs.Pipeline.Phases
import ProtoBuild.Proofs.Progress.Onward

/-!
# What the parts of a build are made of

A part of a build changes the progress, asks for things and shows the listener the progress
it has.  `Work.Made` says of which kinds its changes and its requests are, and is read off
the text of the part: what is never done in it is not in its text, whatever the answers are.

`Made.ensures` is what this is for.  A condition that every such change, every such request
and every look at the progress keeps is kept by the whole part, whether the part ends with a
value or with an error.  So a new condition on builds needs three checks, and not one more
proof for each part.

## The kinds

Almost all changes of a build move the progress forward (`Progress.Grows`), and before the
units are known they leave them alone as well (`Progress.Steady`).  The one change that is
neither is where the units are added, and what has to hold there is a matter of that place; it
lengthens the logs as all others do (`Progress.Lengthens`).

What is done while a phase runs neither ends the phase nor leaves the stage: it writes notes
(`Progress.Annotates`) and works on units (`Progress.Working`).

Requests are told apart by the calls among them (`Request.From`): the later a part stands in
the build, the fewer collaborators it may still call.  A part that calls nobody does not look
whether the build was asked to stop either.  Within a phase a part calls its collaborators and
reads the clock, and it neither looks nor announces anything (`Request.Within`).
-/

namespace ProtoBuild

/-- The progress that an event shows; a result shows that of the end. -/
def Event.shown? : Event → Option Progress
  | updated p => some p
  | completed r => some r.progress
  | _ => none

/-- A change that moves every progress forward. -/
def Progress.Grows (f : Progress → Progress) : Prop := ∀ p : Progress, p.Leads (f p)

/-- A change that moves every progress forward and leaves the units alone. -/
structure Progress.Steady (f : Progress → Progress) : Prop where
  grows : Grows f
  units_eq : ∀ p, (f p).units = p.units

/-- A change that writes notes into the records of phases. -/
structure Progress.Annotates (f : Progress → Progress) : Prop extends Steady f where
  stage_eq : ∀ p : Progress, (f p).stage = p.stage
  noted : ∀ (p : Progress) phase, (p.phases.get phase).Noted ((f p).phases.get phase)

/-- A change that works on units, or writes notes into the records of phases. -/
structure Progress.Working (f : Progress → Progress) : Prop where
  grows : Grows f
  stage_eq : ∀ p : Progress, (f p).stage = p.stage
  noted : ∀ (p : Progress) phase, (p.phases.get phase).Noted ((f p).phases.get phase)
  no_new : ∀ (p : Progress) key, p.units.get? key = none → (f p).units.get? key = none

/-- A change that adds to the logs only. -/
def Progress.Lengthens (f : Progress → Progress) : Prop := ∀ p : Progress, p.LogsGrow (f p)

theorem Progress.Grows.lengthens {f : Progress → Progress} (h : Grows f) : Lengthens f :=
  fun p => (h p).logs_grow

/-- Notes are written into the record of a phase. -/
theorem Progress.annotates_modifyPhase (phase : Phase) {f : PhaseRecord → PhaseRecord}
    (hleads : ∀ r : PhaseRecord, r.Leads (f r)) (hf : ∀ r : PhaseRecord, r.Noted (f r)) :
    Annotates fun p => p.modifyPhase phase f where
  grows p := p.leads_modifyPhase hleads phase
  units_eq _ := rfl
  stage_eq _ := rfl
  noted p q := by
    rw [modifyPhase, PhaseRecords.get_modify]
    split
    · exact hf _
    · exact .refl _

theorem Progress.Annotates.working {f : Progress → Progress} (h : Annotates f) : Working f where
  grows := h.grows
  stage_eq := h.stage_eq
  noted := h.noted
  no_new p key hkey := by rw [h.units_eq, hkey]

/-- The record of a unit is changed. -/
theorem Progress.working_modifyUnit (unit : String) {g : UnitRecord → UnitRecord}
    (hg : ∀ u : UnitRecord, u.Leads (g u)) : Working fun p => p.modifyUnit unit g where
  grows p := p.leads_modifyUnit hg unit
  stage_eq _ := rfl
  noted _ _ := .refl _
  no_new p key hkey := by rw [modifyUnit, StringMap.get?_update, hkey, Option.map_none]

/-- Notes neither start nor end a phase. -/
theorem Progress.Within.noted {p p' : Progress} {phase : Phase} (h : p.Within phase)
    (hnoted : ∀ q, (p.phases.get q).Noted (p'.phases.get q)) : p'.Within phase where
  ended q hq := by
    rw [(hnoted q).isFinal_eq]
    exact h.ended q hq
  waiting q hq := (hnoted q).state_eq.trans (h.waiting q hq)

namespace Pipeline

/-- A request that calls nobody of a lower rank and shows no progress.  There are no calls of
rank eight, and who makes none does not look whether the build was asked to stop. -/
def Request.From (k : Nat) : Request → Prop
  | call c => k ≤ c.rank
  | now => True
  | isCancelled => k < 8
  | tell e => e.shown? = none

/-- A request that calls nobody but collaborators of some ranks, or reads the clock. -/
def Request.Within (i j : Nat) : Request → Prop
  | call c => i ≤ c.rank ∧ c.rank ≤ j
  | now => True
  | isCancelled | tell _ => False

/-- A request that shows no progress, except perhaps with a result. -/
def Request.Silent : Request → Prop
  | tell e => e.progress? = none
  | _ => True

variable {k i j : Nat}

theorem Request.Within.from {q : Request} (h : q.Within i j) (hk : k ≤ i) :
    q.From k := by
  cases q with
  | call c => exact Nat.le_trans hk h.1
  | now => trivial
  | isCancelled => exact h.elim
  | tell e => exact h.elim

theorem Request.From.silent {q : Request} (h : q.From k) : q.Silent := by
  cases q with
  | tell e => cases e <;> first | rfl | exact absurd h (by simp [From, Event.shown?])
  | _ => trivial

namespace Work

variable {α β ε : Type} {M M' : (Progress → Progress) → Prop} {S S' : Request → Prop}
  {work : Work α} {I : Assertion} {run : Run} {p : Progress}

/-- A part of a build is made of changes of one kind, requests of another, and pushes. -/
inductive Made (M : (Progress → Progress) → Prop) (S : Request → Prop) :
    {α : Type} → Work α → Prop
  | pure {α : Type} (a : α) : Made M S (pure a : Work α)
  | throw {α : Type} (e : PipelineError) : Made M S (throw e : Work α)
  | get : Made M S (get : Work Progress)
  | modify {f : Progress → Progress} (h : M f) : Made M S (modify f : Work Unit)
  | request {q : Request} (h : S q) : Made M S (request q)
  | push : Made M S push
  | bind {α β : Type} {work : Work α} {next : α → Work β} (h : Made M S work)
      (hnext : ∀ a, Made M S (next a)) : Made M S (work >>= next)
  | tryCatch {α : Type} {work : Work α} {handler : PipelineError → Work α} (h : Made M S work)
      (hhandler : ∀ e, Made M S (handler e)) : Made M S (tryCatch work handler)

/-- A condition is kept by changes and requests of two kinds, and by pushes. -/
structure Keeps (M : (Progress → Progress) → Prop) (S : Request → Prop) (I : Assertion) :
    Prop where
  modify : ∀ {run p} f, M f → I run p → I run (f p)
  request : ∀ {run p} q (answer : q.Answer), S q → I run p → I (run ++ [⟨q, answer⟩]) p
  push : ∀ {run p}, I run p → I (run ++ [told (.updated p)]) p

/-- **What each step keeps, a whole part keeps**, whether it ends with a value or an error. -/
theorem Made.ensures (h : Made M S work) (hI : Keeps M S I) (hstart : I run p) :
    Ensures work (fun _ => I) (fun _ => I) run p := by
  induction h generalizing run p with
  | pure a => exact hstart
  | throw e => exact hstart
  | get => exact hstart
  | modify hf => exact hI.modify _ hf hstart
  | request hq => exact fun answer => hI.request _ answer hq hstart
  | push => exact ensures_push.mpr (hI.push hstart)
  | bind _ _ ih ihnext => exact (ih hstart).bind fun a run p hmid => ihnext a hmid
  | tryCatch _ _ ih ihhandler =>
    rw [ensures_tryCatch]
    exact (ih hstart).mono (fun _ _ _ hmid => hmid) fun e _ _ hmid => ihhandler e hmid

theorem Made.mono (h : Made M S work) (hM : ∀ f, M f → M' f) (hS : ∀ q, S q → S' q) :
    Made M' S' work := by
  induction h with
  | pure a => exact .pure a
  | throw e => exact .throw e
  | get => exact .get
  | modify hf => exact .modify (hM _ hf)
  | request hq => exact .request (hS _ hq)
  | push => exact .push
  | bind _ _ ih ihnext => exact .bind ih ihnext
  | tryCatch _ _ ih ihhandler => exact .tryCatch ih ihhandler

/-- Changes of a progress of any kind. -/
def AnyChange (_ : Progress → Progress) : Prop := True

theorem Made.grows (h : Made Progress.Steady S work) : Made Progress.Grows S work :=
  h.mono (fun _ hf => hf.grows) fun _ hq => hq

theorem Made.lengthens (h : Made Progress.Grows S work) : Made Progress.Lengthens S work :=
  h.mono (fun _ hf => hf.lengthens) fun _ hq => hq

theorem Made.free (h : Made M S work) : Made AnyChange S work :=
  h.mono (fun _ _ => trivial) fun _ hq => hq

/-- A part within a phase that writes notes, as a part of the build. -/
theorem Made.steady (h : Made Progress.Annotates (Request.Within i j) work)
    (hk : k ≤ i) : Made Progress.Steady (Request.From k) work :=
  h.mono (fun _ hf => hf.toSteady) fun _ hq => hq.from hk

theorem Made.working (h : Made Progress.Annotates S work) : Made Progress.Working S work :=
  h.mono (fun _ hf => hf.working) fun _ hq => hq

/-- A part within a phase that works on units, as a part of the build. -/
theorem Made.growing (h : Made Progress.Working (Request.Within i j) work)
    (hk : k ≤ i) : Made Progress.Grows (Request.From k) work :=
  h.mono (fun _ hf => hf.grows) fun _ hq => hq.from hk

/-- What stands after an error does not matter. -/
theorem made_throw_bind (e : PipelineError) (next : α → Work β) :
    Made M S (throw e >>= next) := by
  show Made M S (throw e : Work β)
  exact .throw e

theorem made_orThrow (wrap : ε → PipelineError) (r : Except ε α) : Made M S (orThrow wrap r) := by
  cases r with
  | ok a => exact .pure a
  | error e => exact .throw (wrap e)

theorem made_call {c : Call} (h : k ≤ c.rank) : Made M (Request.From k) (call c) := .request h

theorem made_now : Made M (Request.From k) now := .request trivial

theorem made_isCancelled (h : k < 8) : Made M (Request.From k) isCancelled := .request h

theorem made_tell {e : Event} (h : e.shown? = none) : Made M (Request.From k) (tell e) :=
  .request h

theorem made_advance (stage : Stage) : Made Progress.Steady S (advance stage) :=
  .modify ⟨fun p => p.leads_advance stage, fun _ => Progress.units_advance⟩

theorem made_modifyPhase (phase : Phase) {f : PhaseRecord → PhaseRecord}
    (hf : ∀ r : PhaseRecord, r.Leads (f r)) : Made Progress.Steady S (modifyPhase phase f) :=
  .modify ⟨fun p => p.leads_modifyPhase hf phase, fun _ => rfl⟩

theorem made_note (phase : Phase) {f : PhaseRecord → PhaseRecord}
    (hleads : ∀ r : PhaseRecord, r.Leads (f r)) (hf : ∀ r : PhaseRecord, r.Noted (f r)) :
    Made Progress.Annotates S (modifyPhase phase f) :=
  .modify (Progress.annotates_modifyPhase phase hleads hf)

theorem made_setSubPhase (phase : Phase) (text : String) :
    Made Progress.Annotates S (modifyPhase phase (·.setSubPhase text)) :=
  made_note phase (fun r => r.leads_setSubPhase text) fun r => r.noted_setSubPhase text

theorem made_addLog (phase : Phase) (line : String) :
    Made Progress.Annotates S (modifyPhase phase (·.addLog line)) :=
  made_note phase (fun r => r.leads_addLog line) fun r => r.noted_addLog line

theorem made_modifyUnit (unit : String) {g : UnitRecord → UnitRecord}
    (hg : ∀ u : UnitRecord, u.Leads (g u)) : Made Progress.Working S (modifyUnit unit g) :=
  .modify (Progress.working_modifyUnit unit hg)

theorem made_called {c : Call} (hi : i ≤ c.rank) (hj : c.rank ≤ j) :
    Made M (Request.Within i j) (call c) :=
  .request ⟨hi, hj⟩

theorem made_timed : Made M (Request.Within i j) now := .request trivial

end Work

open Work Progress

variable {α : Type}

/-! ## Parts within a phase -/

theorem made_writeNotes (phase : Phase) (notes : List Note) :
    Made Annotates (Request.Within i j) (writeNotes phase notes) :=
  made_note phase (PhaseRecord.leads_foldl (fun r note => r.leads_write note) notes) fun r =>
    r.noted_writeAll notes

theorem made_cleanCache (lake : Workspace) :
    Made Annotates (Request.Within 3 3) (cleanCache lake) :=
  .bind (made_setSubPhase _ _) fun _ => .bind .push fun _ =>
    .bind (made_called (Nat.le_refl 3) (Nat.le_refl 3)) fun _ => .bind (made_orThrow _ _) fun _ =>
      made_addLog _ _

theorem made_resolveUnits (lake : Workspace) (mode : ResolutionMode) (target : String) :
    Made Annotates (Request.Within 4 4) (resolveUnits lake mode target) := by
  cases mode with
  | direct => exact .pure _
  | isolated =>
    exact .bind (made_setSubPhase _ _) fun _ =>
      .bind (made_called (Nat.le_refl 4) (Nat.le_refl 4)) fun _ =>
        .bind (made_orThrow _ _) fun _ => .bind (made_addLog _ _) fun _ => .pure _

theorem made_failUnit (unit reason : String) (time : UInt64) :
    Made Working (Request.Within i j) (failUnit unit reason time) :=
  .bind (made_modifyUnit _ fun u => u.leads_fail reason time) fun _ => .pure _

theorem made_buildUnit (lake : Workspace) (args : List String) (unit : String) :
    Made Working (Request.Within 5 5) (buildUnit lake args unit) := by
  refine .bind (made_note _ (fun r => ?_) fun r => ?_).working fun _ => .bind made_timed
    fun started => .bind (made_modifyUnit _ fun u => u.leads_move _ started) fun _ =>
      .bind (made_called (Nat.le_refl 5) (Nat.le_refl 5)) fun answer => .bind made_timed
        fun ended => ?_
  · exact (r.leads_setSubPhase _).trans (PhaseRecord.leads_addLog _ _)
  · exact (r.noted_setSubPhase _).trans (PhaseRecord.noted_addLog _ _)
  · cases answer with
    | error e =>
      dsimp only
      split
      · exact .bind (made_modifyUnit _ fun u => u.leads_addLog _) fun _ => made_failUnit _ _ _
      · exact made_failUnit _ _ _
    | ok output =>
      refine .bind (made_modifyUnit _ fun u => u.leads_addLog _) fun _ => ?_
      dsimp only
      split
      · refine .bind (made_modifyUnit _ fun u => u.leads_move _ ended) fun _ => ?_
        split
        · exact .bind (made_addLog _ _).working fun _ => .bind (made_addLog _ _).working
            fun _ => .pure _
        · exact .bind (made_addLog _ _).working fun _ => .pure _
      · exact made_failUnit _ _ _

theorem made_publishOne (lake : Workspace) (label unit : String) :
    Made Working (Request.Within 7 7) (publishOne lake label unit) := by
  refine .bind (made_setSubPhase _ _).working fun _ =>
    .bind (made_called (Nat.le_refl 7) (Nat.le_refl 7)) fun answer => ?_
  cases answer with
  | ok _ =>
    exact .bind made_timed fun time =>
      .bind (made_modifyUnit _ fun u => u.leads_published lake unit label time) fun _ =>
        .bind (made_addLog _ _).working fun _ => .bind .push fun _ => .pure _
  | error e =>
    exact .bind (made_addLog _ _).working fun _ =>
      .bind (made_modifyUnit _ fun u => u.leads_addLog _) fun _ => .bind .push fun _ => .pure _

theorem made_publishAll (lake : Workspace) (plan : List (String × String)) :
    Made Working (Request.Within 7 7) (publishAll lake plan) := by
  induction plan with
  | nil => exact .pure 0
  | cons step rest ih =>
    exact .bind (made_publishOne lake step.1 step.2) fun _ => .bind ih fun _ => .pure _

/-! ## Parts that call nobody -/

theorem made_stop : Made Steady (Request.From k) (stop : Work α) :=
  .bind (made_advance _) fun _ => .bind .push fun _ => .throw _

theorem made_checkpoint (hk : k < 8) : Made Steady (Request.From k) checkpoint := by
  refine .bind (made_isCancelled hk) fun b => ?_
  cases b with
  | false => exact .pure ()
  | true => exact made_stop

theorem made_abort (phase : Option Phase) (e : PipelineError) :
    Made Steady (Request.From k) (abort phase e : Work α) := by
  have hend : Made Steady (Request.From k) (do
      advance .failed
      push
      tell (.failed e.message)
      throw e : Work α) :=
    .bind (made_advance _) fun _ => .bind .push fun _ => .bind (made_tell rfl) fun _ => .throw e
  cases phase with
  | none => exact hend
  | some phase =>
    exact .bind made_now fun time =>
      .bind (made_modifyPhase _ fun r => r.leads_fail time e.message) fun _ =>
        .bind (made_tell rfl) fun _ => hend

theorem made_enter (hk : k < 8) (phase : Phase) :
    Made Steady (Request.From k) (enter phase) :=
  .bind (made_checkpoint hk) fun _ => .bind (made_advance _) fun _ => .bind made_now fun time =>
    .bind (made_modifyPhase _ fun r => r.leads_start time) fun _ =>
      .bind .push fun _ => made_tell rfl

theorem made_leave (phase : Phase) : Made Steady (Request.From k) (leave phase) :=
  .bind .push fun _ => .bind .get fun _ => made_tell rfl

/-- A phase that is skipped, at the present time. -/
theorem made_skip (phase : Phase) (reason : String) :
    Made Steady (Request.From k)
      (now >>= fun time => modifyPhase phase fun r => (r.skip time reason).1) :=
  .bind made_now fun time => made_modifyPhase phase fun r => r.leads_skip time reason

theorem made_recordReport (report : CheckReport) :
    Made Steady (Request.From k) (recordReport report) := by
  refine .bind made_now fun time => .bind (made_modifyPhase _ fun r => ?_) fun _ => ?_
  · exact PhaseRecord.leads_foldl (fun r f => r.leads_addLog f.text) report.findings r
  · cases report.skipped with
    | some reason => exact made_modifyPhase _ fun r => r.leads_skip time reason
    | none =>
      dsimp only
      split
      · exact made_modifyPhase _ fun r => r.leads_succeed time
      · exact made_abort _ _

theorem made_skipUnits (units : List String) :
    Made Grows (Request.From k) (skipUnits units) := by
  refine .bind made_now fun time => .bind ?_ fun _ =>
    (made_modifyPhase _ fun r => r.leads_skip time _).grows
  induction units with
  | nil => exact .pure ()
  | cons unit rest ih =>
    refine .bind ((made_modifyUnit unit fun u => u.leads_move .skipped time).growing
      (i := k) (j := k) (Nat.le_refl k)) fun _ => ih

theorem made_endBuild (attempted failed : Nat) :
    Made Steady (Request.From k) (endBuild attempted failed) := by
  refine .bind made_now fun time => made_modifyPhase _ fun r => ?_
  split
  · exact r.leads_fail time _
  · exact (r.leads_addLog _).trans (PhaseRecord.leads_succeed _ time)

/-! ## Stages -/

theorem made_generate (hk : k ≤ 1) (lake : Workspace) :
    Made Steady (Request.From k) (generate lake) := by
  refine .bind (made_enter (by omega) _) fun _ => .bind (made_call hk) fun answer =>
    .bind ((made_writeNotes _ _).steady (j := k) (Nat.le_refl k)) fun _ => ?_
  cases answer.2 with
  | error e => exact made_abort _ _
  | ok _ =>
    exact .bind made_now fun time => .bind (made_modifyPhase _ fun r => r.leads_succeed time)
      fun _ => made_leave _

theorem made_validate (hk : k ≤ 2) (lake : Workspace) (options : BuildOptions) :
    Made Steady (Request.From k) (validate lake options) := by
  refine .bind (made_enter (by omega) _) fun _ => ?_
  split
  · exact .bind made_now fun time => .bind (made_modifyPhase _ fun r => r.leads_skip time _)
      fun _ => made_leave _
  · refine .bind (made_call hk) fun answer =>
      .bind ((made_writeNotes _ _).steady (j := k) (Nat.le_refl k)) fun _ => ?_
    cases answer.2 with
    | error e => exact .bind (made_abort _ _) fun _ => made_leave _
    | ok report => exact .bind (made_recordReport _) fun _ => made_leave _

theorem made_buildUnits (hk : k ≤ 5) (lake : Workspace) (args : List String) (goOn : Bool)
    (units : List String) :
    Made Grows (Request.From k) (buildUnits lake args goOn units) := by
  induction units with
  | nil => exact .pure 0
  | cons unit rest ih =>
    rw [buildUnits]
    refine .bind (made_isCancelled (by omega)) fun stopped => ?_
    dsimp only
    split
    · exact .bind (made_skipUnits _) fun _ => .bind .push fun _ => made_throw_bind _ _
    · refine .bind ((made_buildUnit lake args unit).growing hk) fun answer => ?_
      cases answer with
      | ok _ => exact .bind .push fun _ => ih
      | error reason =>
        dsimp only
        split
        · exact .bind (made_modifyPhase _ fun r => r.leads_addLog _).grows fun _ =>
            .bind .push fun _ => .bind ih fun _ => .pure _
        · exact .bind made_now fun time =>
            .bind (made_modifyPhase _ fun r => r.leads_fail time _).grows fun _ =>
              .bind .push fun _ => .throw _

/-- The build phase: it is here that the units are added. -/
theorem made_build (hk : k ≤ 3) (lake : Workspace) (target : String) (options : RunOptions) :
    Made Lengthens (Request.From k) (build lake target options) := by
  unfold build
  extract_lets buildAll
  have hbuildAll : Made Lengthens (Request.From k) (buildAll ()) := by
    refine .bind ((made_resolveUnits _ _ _).steady (by omega)).grows.lengthens fun units => ?_
    split
    · exact (made_skip _ _).grows.lengthens
    · exact .bind .get fun _ => .bind (.modify fun _ _ => List.prefix_rfl) fun _ =>
        .bind .push fun _ => .bind (made_buildUnits (by omega) _ _ _ _).lengthens fun _ =>
          (made_endBuild _ _).grows.lengthens
  split
  · exact .bind ((made_cleanCache lake).steady hk).grows.lengthens fun _ => hbuildAll
  · exact hbuildAll

theorem made_publish (hk : k ≤ 6) (lake : Workspace) (target : String) :
    Made Grows (Request.From k) (publish lake target) := by
  refine .bind (made_modifyPhase _ fun r => r.leads_setSubPhase _).grows fun _ =>
    .bind (made_call hk) fun _ => .bind (made_orThrow _ _) fun labels =>
      .bind (.bind .get fun _ => .pure _) fun built => ?_
  dsimp only
  split
  · exact (made_skip _ _).grows
  · refine .bind ((made_publishAll _ _).growing (by omega)) fun published =>
      .bind made_now fun time => (made_modifyPhase _ fun r => ?_).grows
    split
    · exact r.leads_fail time _
    · exact (r.leads_addLog _).trans (PhaseRecord.leads_succeed _ time)

theorem made_buildTarget (hk : k ≤ 3) (lake : Workspace) (target : String)
    (options : BuildOptions) :
    Made Lengthens (Request.From k) (buildTarget lake target options) := by
  refine .bind (made_enter (by omega) _).grows.lengthens fun _ => ?_
  cases lake.relative? target with
  | none => exact (made_abort _ _).grows.lengthens
  | some place =>
    refine .bind (.tryCatch (made_build hk _ _ _) fun e => ?_) fun _ =>
      .bind (made_leave _).grows.lengthens fun _ => .pure _
    split
    · exact made_stop.grows.lengthens
    · exact (made_abort _ _).grows.lengthens

theorem made_publishTarget (hk : k ≤ 6) (lake : Workspace) (place : String) :
    Made Grows (Request.From k) (publishTarget lake place) :=
  .bind (made_enter (by omega) _).grows fun _ =>
    .bind (.tryCatch (made_publish hk _ _) fun _ => (made_abort _ _).grows) fun _ =>
      (made_leave _).grows

/-- A whole build adds to the logs only, and shows its progress by pushes and with its result. -/
theorem made_wholeBuild (lake : Workspace) (target : String) (options : BuildOptions) :
    Made Lengthens Request.Silent (wholeBuild lake target options) := by
  have part : ∀ {α : Type} {work : Work α}, Made Lengthens (Request.From 0) work →
      Made Lengthens Request.Silent work :=
    fun h => h.mono (fun _ hf => hf) fun _ hq => hq.silent
  have finish : Made Lengthens Request.Silent (do
      advance .completed
      push
      let result := (← get).result (← now)
      tell (.completed result)
      return result) :=
    .bind (part (made_advance _).grows.lengthens) fun _ => .bind .push fun _ => .bind .get
      fun _ => .bind (.request trivial) fun _ => .bind (.request rfl) fun _ => .pure _
  unfold wholeBuild
  refine .bind (.modify fun _ _ => List.prefix_rfl) fun _ =>
    .bind (part (made_checkpoint (by omega)).grows.lengthens) fun _ =>
      .bind (.request trivial) fun answer => ?_
  cases answer with
  | error e => exact part (made_abort _ _).grows.lengthens
  | ok _ =>
    refine .bind (part (made_generate (by omega) _).grows.lengthens) fun _ =>
      .bind (part (made_validate (by omega) _ _).grows.lengthens) fun _ =>
        .bind (part (made_buildTarget (by omega) _ _ _)) fun place => ?_
    dsimp only
    split
    · exact .bind (part (made_publishTarget (by omega) _ _).lengthens) fun _ => finish
    · exact finish

end Pipeline
end ProtoBuild
