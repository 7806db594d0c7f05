import ProtoBuild.Proofs.Pipeline.Unitwise

/-!
# Conditions that last through a build

A condition on the records of the units is seldom touched by a build.  The stage moves, phases start
and end, the listener is told, and the units stay as they are.  Only in five places something
happens to them: they are added, they are attempted, some are skipped, some are published, and a
publication that has failed is noted.  `Lasts` says that a condition is kept at these places and
wherever the units are left alone, and `Lasts.wholeBuild` is what follows for a whole build.

The attempt of a unit is taken as one step.  Between the moment at which it is given to the build
tool and the one at which its record is complete the condition need not hold.  This is why a kind
of changes (`Work.Made`) would not do here, in which each change would have to keep the condition
by itself.
-/

namespace ProtoBuild
namespace Pipeline

open Work Progress

namespace Work

variable {α β : Type} {I : Assertion} {work : Work α} {next : α → Work β}

/-- A part of a build keeps a condition, whether it ends with a value or with an error. -/
def Preserves (I : Assertion) (work : Work α) : Prop :=
  ∀ run p, I run p → Ensures work (fun _ => I) (fun _ => I) run p

theorem preserves_pure (a : α) : Preserves I (pure a : Work α) := fun _ _ hp => hp

theorem preserves_throw (e : PipelineError) : Preserves I (throw e : Work α) := fun _ _ hp => hp

theorem preserves_get : Preserves I (get : Work Progress) := fun _ _ hp => hp

theorem preserves_modify {f : Progress → Progress} (hf : ∀ run p, I run p → I run (f p)) :
    Preserves I (modify f : Work Unit) := hf

theorem Preserves.bind (h : Preserves I work) (hnext : ∀ a, Preserves I (next a)) :
    Preserves I (work >>= next) :=
  fun run p hp => (h run p hp).bind fun a run p hp => hnext a run p hp

theorem Preserves.tryCatch {handler : PipelineError → Work α} (h : Preserves I work)
    (hhandler : ∀ e, Preserves I (handler e)) : Preserves I (tryCatch work handler) := by
  intro run p hp
  rw [ensures_tryCatch]
  exact (h run p hp).mono (fun _ _ _ hp => hp) fun e run p hp => hhandler e run p hp

/-- What stands after an error does not matter. -/
theorem preserves_throw_bind (e : PipelineError) (next : α → Work β) :
    Preserves I (throw e >>= next) := fun _ _ hp => hp

end Work

/-! ## What a condition has to bear -/

/-- A condition is kept wherever something happens to units, and where they are left alone. -/
structure Lasts (lake : Workspace) (I : Assertion) : Prop where
  steady : Keeps Steady (fun _ => True) I
  added : ∀ {run p} units version, I run p → I run (p.withUnits units version)
  attempt : ∀ args unit, Preserves I (buildUnit lake args unit)
  skipped : ∀ {run p} unit time, I run p →
    I run (p.modifyUnit unit fun u => (u.move .skipped time).1)
  published : ∀ {run p} unit label time, I run p →
    I run (p.modifyUnit unit (publishedUnit lake unit label time))
  noted : ∀ {run p} unit text, I run p → I run (p.modifyUnit unit (·.addLog text))

namespace Lasts

variable {α : Type} {lake : Workspace} {I : Assertion} (h : Lasts lake I)

include h

/-- Parts that leave the units alone keep the condition. -/
theorem of_steady {S : Request → Prop} {work : Work α} (hwork : Made Steady S work) :
    Preserves I work :=
  fun _ _ hp => (hwork.mono (fun _ hf => hf) fun _ _ => trivial).ensures h.steady hp

theorem note (phase : Phase) {f : PhaseRecord → PhaseRecord}
    (hf : ∀ r : PhaseRecord, r.Leads (f r)) : Preserves I (modifyPhase phase f) :=
  h.of_steady (S := fun _ => True) (made_modifyPhase phase hf)

theorem request (q : Request) : Preserves I (Work.request q) :=
  h.of_steady (S := fun _ => True) (.request trivial)

theorem pushed : Preserves I push := h.of_steady (S := fun _ => True) .push

/-! ## The build phase -/

theorem skipUnits (units : List String) : Preserves I (skipUnits units) := by
  refine .bind (h.request .now) fun time => .bind ?_ fun _ =>
    h.note .build fun r => r.leads_skip time _
  induction units with
  | nil => exact preserves_pure ()
  | cons unit rest ih => exact .bind (fun _ _ hp => h.skipped unit time hp) fun _ => ih

/-- The units are built one after another. -/
theorem buildUnits (args : List String) (goOn : Bool) (units : List String) :
    Preserves I (buildUnits lake args goOn units) := by
  induction units with
  | nil => exact preserves_pure 0
  | cons unit rest ih =>
    rw [Pipeline.buildUnits]
    refine .bind (h.request .isCancelled) fun stopped => ?_
    dsimp only
    split
    · exact .bind (h.skipUnits _) fun _ => .bind h.pushed fun _ => preserves_throw_bind _ _
    · refine .bind (h.attempt args unit) fun answer => ?_
      cases answer with
      | ok _ => exact .bind h.pushed fun _ => ih
      | error reason =>
        dsimp only
        split
        · exact .bind (h.note .build fun r => r.leads_addLog _) fun _ => .bind h.pushed fun _ =>
            .bind ih fun _ => preserves_pure _
        · exact .bind (h.request .now) fun time =>
            .bind (h.note .build fun r => r.leads_fail time _) fun _ => .bind h.pushed fun _ =>
              preserves_throw _

theorem build (target : String) (options : RunOptions) :
    Preserves I (build lake target options) := by
  unfold Pipeline.build
  extract_lets buildAll
  have hbuildAll : Preserves I (buildAll ()) := by
    refine .bind (h.of_steady ((made_resolveUnits _ _ _).steady (Nat.le_refl 4))) fun units => ?_
    split
    · exact h.of_steady (made_skip (k := 0) _ _)
    · exact .bind preserves_get fun _ =>
        .bind (preserves_modify fun _ _ hp => h.added units _ hp) fun _ => .bind h.pushed fun _ =>
          .bind (h.buildUnits _ _ _) fun _ => h.of_steady (made_endBuild (k := 0) _ _)
  split
  · exact .bind (h.of_steady ((made_cleanCache lake).steady (Nat.le_refl 3))) fun _ => hbuildAll
  · exact hbuildAll

theorem buildTarget (target : String) (options : BuildOptions) :
    Preserves I (buildTarget lake target options) := by
  refine .bind (h.of_steady (made_enter (k := 0) (by omega) _)) fun _ => ?_
  cases lake.relative? target with
  | none => exact h.of_steady (made_abort (k := 0) _ _)
  | some place =>
    refine .bind (.tryCatch (h.build _ _) fun e => ?_) fun _ =>
      .bind (h.of_steady (made_leave (k := 0) _)) fun _ => preserves_pure _
    split
    · exact h.of_steady (made_stop (k := 0))
    · exact h.of_steady (made_abort (k := 0) _ _)

/-! ## The publish phase -/

theorem publishOne (label unit : String) : Preserves I (publishOne lake label unit) := by
  refine .bind (h.note .publish fun r => r.leads_setSubPhase _) fun _ =>
    .bind (h.request (.call (.run lake.root label []))) fun answer => ?_
  cases answer with
  | ok _ =>
    exact .bind (h.request .now) fun time =>
      .bind (fun _ _ hp => h.published unit label time hp) fun _ =>
        .bind (h.note .publish fun r => r.leads_addLog _) fun _ => .bind h.pushed fun _ =>
          preserves_pure _
  | error e =>
    exact .bind (h.note .publish fun r => r.leads_addLog _) fun _ =>
      .bind (fun _ _ hp => h.noted unit _ hp) fun _ => .bind h.pushed fun _ => preserves_pure _

theorem publishAll (plan : List (String × String)) : Preserves I (publishAll lake plan) := by
  induction plan with
  | nil => exact preserves_pure 0
  | cons step rest ih =>
    exact .bind (h.publishOne step.1 step.2) fun _ => .bind ih fun _ => preserves_pure _

theorem publish (target : String) : Preserves I (publish lake target) := by
  refine .bind (h.note .publish fun r => r.leads_setSubPhase _) fun _ =>
    .bind (h.request (.call (.query lake.root (publishQuery target)))) fun answer =>
      .bind (h.of_steady (S := fun _ => True) (made_orThrow _ _)) fun labels =>
        .bind (.bind preserves_get fun _ => preserves_pure _) fun built => ?_
  dsimp only
  split
  · exact h.of_steady (made_skip (k := 0) _ _)
  · refine .bind (h.publishAll _) fun published => .bind (h.request .now) fun time =>
      h.note .publish fun r => ?_
    split
    · exact r.leads_fail time _
    · exact (r.leads_addLog _).trans (PhaseRecord.leads_succeed _ time)

theorem publishTarget (place : String) : Preserves I (publishTarget lake place) :=
  .bind (h.of_steady (made_enter (k := 0) (by omega) _)) fun _ =>
    .bind (.tryCatch (h.publish _) fun _ => h.of_steady (made_abort (k := 0) _ _)) fun _ =>
      h.of_steady (made_leave (k := 0) _)

/-! ## The whole build -/

/-- **What lasts through the parts lasts through the build.**  A build begins with a lake that is
known, so it is there that the condition has to hold. -/
theorem wholeBuild (target : String) (options : BuildOptions) {run : Run} {p : Progress}
    (hstart : I run { p with lake := some (p.lake.getD lake) }) :
    Ensures (wholeBuild lake target options) (fun _ => I) (fun _ => I) run p := by
  have hfinish : Preserves I (do
      advance .completed
      push
      let result := (← get).result (← now)
      tell (.completed result)
      return result) :=
    .bind (h.of_steady (S := fun _ => True) (made_advance _)) fun _ => .bind h.pushed fun _ =>
      .bind preserves_get fun _ => .bind (h.request .now) fun _ => .bind (h.request (.tell _))
        fun _ => preserves_pure _
  unfold Pipeline.wholeBuild
  rw [ensures_bind, ensures_modify]
  refine Preserves.bind (h.of_steady (made_checkpoint (k := 0) (by omega))) (fun _ =>
    .bind (h.request (.call (.prepare lake))) fun answer => ?_) run _ hstart
  cases answer with
  | error e => exact h.of_steady (made_abort (k := 0) _ _)
  | ok _ =>
    refine .bind (h.of_steady (made_generate (k := 0) (by omega) _)) fun _ =>
      .bind (h.of_steady (made_validate (k := 0) (by omega) _ _)) fun _ =>
        .bind (h.buildTarget _ _) fun place => ?_
    dsimp only
    split
    · exact .bind (h.publishTarget _) fun _ => hfinish
    · exact hfinish

end Lasts

end Pipeline
end ProtoBuild
