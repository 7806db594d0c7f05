import ProtoBuild.Proofs.Pipeline.Rules

/-!
# Where a build is among its phases

Between two phases, the phases before are over and those after have not started
(`Progress.Between`).  While one of them runs nothing is known of its own record
(`Progress.During`), and it need not be: whatever is written into it, ending it makes it
final.  That is why it does no harm if two parts of a build end the same phase one after the
other, as the build phase and the whole build do after a failed unit.

Both also say that the stage is not final and that no unit is being built.  Only while a unit
is with the build tool the latter fails, and for this unit alone (`Progress.IdleBut`).

## Why the stage is a part of it

A final stage is never left, so a build that had reached one could not say any more how it
ends.  From any other stage each final stage can be reached (`stage_advance_of_isFinal`), and
so the stage that is set last is the one that is seen.
-/

namespace ProtoBuild

/-! ## Records of phases and units -/

namespace PhaseRecord

theorem isFinal_finish (r : PhaseRecord) {state : PhaseState} (h : state.isFinal = true)
    (now : UInt64) (error : Option String) : (r.finish state now error).1.isFinal = true := by
  unfold finish
  split
  · assumption
  · exact h

/-- A phase that is not over ends in the state that it is given. -/
theorem state_finish {r : PhaseRecord} (h : r.isFinal = false) (state : PhaseState) (now : UInt64)
    (error : Option String) : (r.finish state now error).1.state = state := by
  unfold finish
  rw [if_neg (by rw [h]; exact Bool.false_ne_true)]

theorem isFinal_of_state {r : PhaseRecord} {state : PhaseState} (h : r.state = state) :
    r.isFinal = state.isFinal := by
  rw [isFinal, h]

theorem isFinal_succeed (r : PhaseRecord) (now : UInt64) : (r.succeed now).1.isFinal = true :=
  r.isFinal_finish rfl now none

theorem isFinal_fail (r : PhaseRecord) (now : UInt64) (message : String) :
    (r.fail now message).1.isFinal = true :=
  r.isFinal_finish rfl now (some message)

theorem isFinal_skip (r : PhaseRecord) (now : UInt64) (reason : String) :
    (r.skip now reason).1.isFinal = true :=
  isFinal_finish _ rfl now none

end PhaseRecord

/-- The state in which a phase ends that has tried some things: it is skipped if there was nothing
to try, and fails if nothing has succeeded. -/
def PhaseState.ofOutcomes (outcomes : List Bool) : PhaseState :=
  if outcomes.isEmpty then .skipped else if outcomes.any id then .succeeded else .failed

theorem PhaseState.ofOutcomes_map {α : Type} {l : List α} (h : l ≠ []) (f : α → Bool) :
    ofOutcomes (l.map f) = if l.countP f = 0 then .failed else .succeeded := by
  have hsome : ¬ (l.map f).isEmpty = true := by simpa using h
  rw [ofOutcomes, if_neg hsome]
  by_cases hfailed : l.countP f = 0
  · have hnone : ¬ (l.map f).any id = true := by simpa using hfailed
    rw [if_pos hfailed, if_neg hnone]
  · have hany : (l.map f).any id = true := by simpa using hfailed
    rw [if_neg hfailed, if_pos hany]

namespace UnitRecord

variable {u : UnitRecord} {next : UnitStatus}

theorem status_move (u : UnitRecord) (next : UnitStatus) (now : UInt64) :
    (u.move next now).1.status = if u.status.canBecome next = true then next else u.status := by
  unfold move
  split <;> rfl

/-- A unit that is being built is not any more once it has moved. -/
theorem move_ne_building (h : UnitStatus.building.canBecome next = true) (now : UInt64) :
    (u.move next now).1.status ≠ .building := by
  rw [status_move]
  split
  · rintro rfl
    exact absurd h Bool.false_ne_true
  · rename_i hmove
    intro hu
    rw [hu] at hmove
    exact hmove h

theorem fail_ne_building (message : String) (now : UInt64) :
    (u.fail message now).1.status ≠ .building := by
  have hmove : (u.move .failed now).1.status ≠ .building := move_ne_building rfl now
  unfold fail
  split
  · rename_i u' heq
    rw [heq] at hmove
    exact hmove
  · rename_i u' heq
    have hu : u' = u := by
      unfold move at heq
      split at heq
      · exact absurd (Prod.mk.inj heq).2 Bool.noConfusion
      · exact (Prod.mk.inj heq).1.symm
    rw [heq, hu] at hmove
    exact hmove

/-- No unit comes to be built by moving anywhere else. -/
theorem move_ne_building_of_ne (hu : u.status ≠ .building) (hnext : next ≠ .building)
    (now : UInt64) : (u.move next now).1.status ≠ .building := by
  rw [status_move]
  split
  · exact hnext
  · exact hu

end UnitRecord

namespace Progress

variable {p : Progress} {phase : Phase} {stage : Stage} {unit : String}
  {f : PhaseRecord → PhaseRecord} {g : UnitRecord → UnitRecord} {k : Nat}

/-! ## The parts of a progress -/

@[simp] theorem phases_modifyPhase : (p.modifyPhase phase f).phases = p.phases.modify phase f :=
  rfl

@[simp] theorem phases_advance : (p.advance stage).1.phases = p.phases := by
  unfold advance
  split <;> rfl

@[simp] theorem units_advance : (p.advance stage).1.units = p.units := by
  unfold advance
  split <;> rfl

/-- A change of the stage changes nothing else. -/
theorem advance_eq (p : Progress) (stage : Stage) :
    ∃ s, (p.advance stage).1 = { p with stage := s } := by
  unfold advance
  split
  · exact ⟨stage, rfl⟩
  · exact ⟨p.stage, rfl⟩

/-- From a stage that is not final each final stage can be reached. -/
theorem stage_advance_of_isFinal (h : p.stage.isFinal = false) (hstage : stage.isFinal = true) :
    (p.advance stage).1.stage = stage := by
  have hcan : p.stage.canAdvanceTo stage = true := by
    rw [Stage.canAdvanceTo, h, hstage]
    rfl
  rw [advance, if_pos hcan]

theorem isFinal_advance (h : p.stage.isFinal = false) (hstage : stage.isFinal = false) :
    (p.advance stage).1.stage.isFinal = false := by
  unfold advance
  split
  · exact hstage
  · exact h

/-! ## Units -/

/-- A unit of a changed progress is one of those before, perhaps changed. -/
theorem get?_modifyUnit {key : String} {u : UnitRecord}
    (h : (p.modifyUnit unit g).units.get? key = some u) :
    ∃ v, p.units.get? key = some v ∧ u = if key = unit then g v else v := by
  rw [Progress.modifyUnit, StringMap.get?_update, Option.map_eq_some_iff] at h
  obtain ⟨v, hv, heq⟩ := h
  exact ⟨v, hv, heq.symm⟩

theorem get?_modifyUnit_of_ne {key : String} (h : key ≠ unit) :
    (p.modifyUnit unit g).units.get? key = p.units.get? key := by
  rw [modifyUnit, StringMap.get?_update]
  cases p.units.get? key <;> simp [h]

theorem get?_modifyUnit_self {u : UnitRecord} (h : p.units.get? unit = some u) :
    (p.modifyUnit unit g).units.get? unit = some (g u) := by
  rw [modifyUnit, StringMap.get?_update, h, Option.map_some, if_pos rfl]

/-- No unit is being built. -/
def Idle (p : Progress) : Prop :=
  ∀ key u, p.units.get? key = some u → u.status ≠ .building

/-- No unit is being built, except perhaps one. -/
def IdleBut (unit : String) (p : Progress) : Prop :=
  ∀ key u, key ≠ unit → p.units.get? key = some u → u.status ≠ .building

theorem Idle.but (h : p.Idle) : p.IdleBut unit := fun key u _ hu => h key u hu

theorem Idle.modifyUnit (h : p.Idle)
    (hg : ∀ u, u.status ≠ .building → (g u).status ≠ .building) : (p.modifyUnit unit g).Idle := by
  intro key u hu
  obtain ⟨v, hv, rfl⟩ := get?_modifyUnit hu
  split
  · exact hg v (h key v hv)
  · exact h key v hv

theorem IdleBut.modifyUnit (h : p.IdleBut unit) : (p.modifyUnit unit g).IdleBut unit := by
  intro key u hkey hu
  obtain ⟨v, hv, rfl⟩ := get?_modifyUnit hu
  rw [if_neg hkey]
  exact h key v hkey hv

/-- The unit that was being built is so no longer. -/
theorem IdleBut.idle (h : p.IdleBut unit) (hg : ∀ u, (g u).status ≠ .building) :
    (p.modifyUnit unit g).Idle := by
  intro key u hu
  obtain ⟨v, hv, rfl⟩ := get?_modifyUnit hu
  split
  · exact hg v
  · rename_i hkey
    exact h key v hkey hv

/-- Units that are yet to be built are not being built. -/
theorem Idle.insertAll (h : p.Idle) (units : List String) (version : String) :
    Idle
      { p with
        units :=
          units.foldl (fun m u => m.insert u { target := u, version := version }) p.units } := by
  intro key u hu
  rcases StringMap.get?_foldl_insert hu with ⟨-, rfl⟩ | hu
  · exact UnitStatus.noConfusion
  · exact h key u hu

theorem Idle.advance (h : p.Idle) : (p.advance stage).1.Idle := by
  rw [Idle, units_advance]
  exact h

end Progress

/-! ## Phases -/

/-- The place of a phase among the phases. -/
def Phase.index : Phase → Nat
  | codegen => 0
  | validation => 1
  | build => 2
  | publish => 3

theorem Phase.index_inj {a b : Phase} : a.index = b.index ↔ a = b := by
  cases a <;> cases b <;> decide

/-- The first phases are those whose places are the first. -/
theorem Phase.mem_take_iff {k : Nat} {phase : Phase} :
    phase ∈ Phase.all.take k ↔ phase.index < k := by
  rcases k with _ | _ | _ | _ | k <;> cases phase <;> simp [Phase.all, Phase.index]

/-- The last phases are those whose places are the last. -/
theorem Phase.mem_drop_iff {k : Nat} {phase : Phase} :
    phase ∈ Phase.all.drop k ↔ k ≤ phase.index := by
  rcases k with _ | _ | _ | _ | k <;> cases phase <;> simp [Phase.all, Phase.index]

theorem Phase.take_succ (phase : Phase) :
    Phase.all.take (phase.index + 1) = Phase.all.take phase.index ++ [phase] := by
  cases phase <;> rfl

theorem Phase.rank_stage (phase : Phase) : phase.stage.rank = phase.index + 1 := by
  cases phase <;> rfl

theorem Phase.isFinal_stage (phase : Phase) : phase.stage.isFinal = false := by
  cases phase <;> rfl

namespace Progress

/-- The first phases are over, and the others have not started. -/
structure Through (k : Nat) (p : Progress) : Prop where
  ended : ∀ q : Phase, q.index < k → (p.phases.get q).isFinal = true
  waiting : ∀ q : Phase, k ≤ q.index → (p.phases.get q).state = .notStarted

/-- A build that goes on is between two phases. -/
structure Between (k : Nat) (p : Progress) : Prop where
  through : p.Through k
  active : p.stage.isFinal = false
  idle : p.Idle

/-- The phases before one are over, and those after it have not started. -/
structure Within (phase : Phase) (p : Progress) : Prop where
  ended : ∀ q : Phase, q.index < phase.index → (p.phases.get q).isFinal = true
  waiting : ∀ q : Phase, phase.index < q.index → (p.phases.get q).state = .notStarted

/-- A build that goes on is within a phase. -/
structure Inside (phase : Phase) (p : Progress) : Prop extends Within phase p where
  active : p.stage.isFinal = false

/-- A build that goes on is within a phase, and no unit is being built. -/
structure During (phase : Phase) (p : Progress) : Prop extends Inside phase p where
  idle : p.Idle

/-- A phase that is over or has not started is not running. -/
theorem Through.not_running {p : Progress} {k : Nat} (h : p.Through k) (phase : Phase) :
    (p.phases.get phase).state ≠ .running := by
  intro hrunning
  by_cases hlt : phase.index < k
  · have hfinal := h.ended phase hlt
    rw [PhaseRecord.isFinal, hrunning] at hfinal
    exact absurd hfinal Bool.false_ne_true
  · have hwaiting := h.waiting phase (Nat.le_of_not_lt hlt)
    rw [hrunning] at hwaiting
    exact PhaseState.noConfusion hwaiting

theorem between_initial (lake : Workspace) (target branch : String) (now : UInt64) :
    (initial lake target branch now).Between 0 where
  through :=
    { ended := fun q hq => absurd hq (Nat.not_lt_zero _)
      waiting := fun q _ => by cases q <;> rfl }
  active := rfl
  idle key u hu := by
    have hnone : (initial lake target branch now).units.get? key = none := rfl
    rw [hnone] at hu
    exact absurd hu (by simp)

variable {p : Progress} {phase : Phase} {stage : Stage} {unit : String}
  {f : PhaseRecord → PhaseRecord} {g : UnitRecord → UnitRecord} {k : Nat}

theorem get_modifyPhase_of_ne {q : Phase} (hq : q ≠ phase) :
    (p.modifyPhase phase f).phases.get q = p.phases.get q := by
  rw [phases_modifyPhase, PhaseRecords.get_modify, if_neg hq]

theorem get_modifyPhase_self :
    (p.modifyPhase phase f).phases.get phase = f (p.phases.get phase) := by
  rw [phases_modifyPhase, PhaseRecords.get_modify, if_pos rfl]

theorem Within.modifyPhase (h : p.Within phase) : (p.modifyPhase phase f).Within phase where
  ended q hq := by
    have hne : q ≠ phase := fun heq => absurd hq (by rw [heq]; omega)
    rw [get_modifyPhase_of_ne hne]
    exact h.ended q hq
  waiting q hq := by
    have hne : q ≠ phase := fun heq => absurd hq (by rw [heq]; omega)
    rw [get_modifyPhase_of_ne hne]
    exact h.waiting q hq

theorem Within.advance (h : p.Within phase) : (p.advance stage).1.Within phase where
  ended q hq := by
    rw [phases_advance]
    exact h.ended q hq
  waiting q hq := by
    rw [phases_advance]
    exact h.waiting q hq

/-- Between two phases the one after is entered. -/
theorem Through.enter (h : p.Through phase.index) (time : UInt64) :
    (Pipeline.enteredInto phase time p).Within phase := by
  have hwithin : p.Within phase := ⟨h.ended, fun q hq => h.waiting q (Nat.le_of_lt hq)⟩
  exact hwithin.advance.modifyPhase

/-- A phase that is entered is running. -/
theorem Through.running_enter (h : p.Through phase.index) (time : UInt64) :
    ((Pipeline.enteredInto phase time p).phases.get phase).state = .running := by
  rw [Pipeline.enteredInto, get_modifyPhase_self, phases_advance, PhaseRecord.start,
    if_pos (h.waiting phase (Nat.le_refl _))]

/-- A phase that is over lies before those that have not started. -/
theorem Within.through (h : p.Within phase) (hfinal : (p.phases.get phase).isFinal = true) :
    p.Through (phase.index + 1) where
  ended q hq := by
    by_cases hne : q = phase
    · rw [hne]
      exact hfinal
    · have hindex : q.index ≠ phase.index := fun heq => hne (Phase.index_inj.mp heq)
      exact h.ended q (by omega)
  waiting q hq := h.waiting q hq

theorem Within.finish (h : p.Within phase) (hf : ∀ r, (f r).isFinal = true) :
    (p.modifyPhase phase f).Through (phase.index + 1) := by
  refine h.modifyPhase.through ?_
  rw [get_modifyPhase_self]
  exact hf _

theorem Inside.modifyPhase (h : p.Inside phase) : (p.modifyPhase phase f).Inside phase where
  toWithin := h.toWithin.modifyPhase
  active := h.active

theorem Inside.modifyUnit (h : p.Inside phase) : (p.modifyUnit unit g).Inside phase :=
  ⟨⟨h.ended, h.waiting⟩, h.active⟩

theorem During.modifyPhase (h : p.During phase) : (p.modifyPhase phase f).During phase where
  toInside := h.toInside.modifyPhase
  idle := h.idle

theorem During.modifyUnit (h : p.During phase)
    (hg : ∀ u, u.status ≠ .building → (g u).status ≠ .building) :
    (p.modifyUnit unit g).During phase where
  toInside := h.toInside.modifyUnit
  idle := h.idle.modifyUnit hg

/-- Whatever is done to one unit, the others are not being built. -/
theorem During.modifyUnit_but (h : p.During phase) (unit : String)
    (g : UnitRecord → UnitRecord) :
    (p.modifyUnit unit g).Inside phase ∧ (p.modifyUnit unit g).IdleBut unit :=
  ⟨h.toInside.modifyUnit, h.idle.but.modifyUnit⟩

/-- A build that is between two phases has just been within the one before. -/
theorem Between.during (h : p.Between (phase.index + 1)) : p.During phase where
  ended q hq := h.through.ended q (by omega)
  waiting q hq := h.through.waiting q (by omega)
  active := h.active
  idle := h.idle

theorem Inside.advance (h : p.Inside phase) (hstage : stage.isFinal = false) :
    (p.advance stage).1.Inside phase where
  toWithin := h.toWithin.advance
  active := isFinal_advance h.active hstage

theorem Through.advance (h : p.Through k) : (p.advance stage).1.Through k where
  ended q hq := by
    rw [phases_advance]
    exact h.ended q hq
  waiting q hq := by
    rw [phases_advance]
    exact h.waiting q hq

theorem Between.enter (h : p.Between phase.index) (time : UInt64) :
    (Pipeline.enteredInto phase time p).During phase where
  toWithin := h.through.enter time
  active := isFinal_advance h.active phase.isFinal_stage
  idle := h.idle.advance

/-- Whatever is known of the record of a phase, ending it brings the build behind it. -/
theorem During.finish (h : p.During phase) (hf : ∀ r, (f r).isFinal = true) :
    (p.modifyPhase phase f).Between (phase.index + 1) where
  through := h.toWithin.finish hf
  active := h.active
  idle := h.idle

/-- A build that an error has ended in a phase is through this phase. -/
theorem During.abort (h : p.During phase) (time : UInt64) (e : PipelineError) :
    (Pipeline.abortedIn phase time e p).Through (phase.index + 1) ∧
      (Pipeline.abortedIn phase time e p).Idle ∧
      (Pipeline.abortedIn phase time e p).stage = .failed := by
  have hbetween := h.finish fun r => r.isFinal_fail time e.message
  exact ⟨hbetween.through.advance, hbetween.idle.advance,
    stage_advance_of_isFinal hbetween.active rfl⟩

end Progress
end ProtoBuild
