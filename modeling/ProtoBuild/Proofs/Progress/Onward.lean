import Mathlib.Logic.Relation
import ProtoBuild.Pipeline

/-!
# Progress that only moves forward

Whoever polls a build compares what he sees with what he saw before: lines are added to a log,
a phase that is over stays as it is, a time that is known does not change, units are added but
never taken away.  `Progress.Onward` says all this of an earlier and a later progress, and it
is reflexive and transitive, so it holds along any number of changes.

For each change of a record there is one lemma.  A record of a phase leads to another one
(`PhaseRecord.Leads`), one of a unit too (`UnitRecord.Leads`), and so does the whole progress
(`Progress.Leads`).  Of a phase there are changes which only write notes (`PhaseRecord.Noted`):
they leave its state, its times and its error as they are.

## Why a record has to be well timed

A phase that starts sets the time of its start without looking whether there is one, and a
phase that ends sets the time of its end.  What keeps these from being overwritten is that a
phase that has not started has no start and one that is not over has no end
(`PhaseRecord.WellTimed`), which every change keeps.  A log grows without such a condition, and
the times of a unit are kept without one: its moves look at the time before they set it.
-/

namespace ProtoBuild

/-! ## Phases -/

/-- A phase has a start just if it has started and an end just if it is over. -/
structure PhaseRecord.WellTimed (r : PhaseRecord) : Prop where
  no_start : r.state = .notStarted → r.startTime = none
  no_end : r.isFinal = false → r.endTime = none
  has_start : r.state ≠ .notStarted → r.startTime.isSome = true
  has_end : r.isFinal = true → r.endTime.isSome = true

/-- From an earlier record of a phase to a later one: what is over stays as it is, the log
only grows, and times that are known do not change. -/
structure PhaseRecord.Onward (r r' : PhaseRecord) : Prop where
  frozen : r.isFinal = true → r' = r
  log_prefix : r.log <+: r'.log
  start_kept : ∀ t, r.startTime = some t → r'.startTime = some t
  end_kept : ∀ t, r.endTime = some t → r'.endTime = some t

/-- A change of a record adds to its log only, and if the record is well timed it stays so and
moves forward. -/
structure PhaseRecord.Leads (r r' : PhaseRecord) : Prop where
  log_grows : r.log <+: r'.log
  onward : r.WellTimed → r'.WellTimed ∧ r.Onward r'

/-- Only notes were written into a record. -/
structure PhaseRecord.Noted (r r' : PhaseRecord) : Prop where
  state_eq : r'.state = r.state
  startTime_eq : r'.startTime = r.startTime
  endTime_eq : r'.endTime = r.endTime
  error_eq : r'.error = r.error

namespace PhaseRecord

variable {r r' r'' : PhaseRecord}

theorem wellTimed_new : WellTimed {} where
  no_start _ := rfl
  no_end _ := rfl
  has_start h := absurd rfl h
  has_end h := absurd h Bool.false_ne_true

theorem Onward.refl (r : PhaseRecord) : r.Onward r where
  frozen _ := rfl
  log_prefix := List.prefix_rfl
  start_kept _ ht := ht
  end_kept _ ht := ht

theorem Onward.trans (h : r.Onward r') (h' : r'.Onward r'') : r.Onward r'' where
  frozen hr := by
    obtain rfl := h.frozen hr
    exact h'.frozen hr
  log_prefix := h.log_prefix.trans h'.log_prefix
  start_kept t ht := h'.start_kept t (h.start_kept t ht)
  end_kept t ht := h'.end_kept t (h.end_kept t ht)

theorem Leads.refl (r : PhaseRecord) : r.Leads r := ⟨List.prefix_rfl, fun h => ⟨h, .refl r⟩⟩

theorem Leads.trans (h : r.Leads r') (h' : r'.Leads r'') : r.Leads r'' := by
  refine ⟨h.log_grows.trans h'.log_grows, fun hr => ?_⟩
  obtain ⟨hr', hto⟩ := h.onward hr
  obtain ⟨hr'', hto'⟩ := h'.onward hr'
  exact ⟨hr'', hto.trans hto'⟩

theorem Noted.refl (r : PhaseRecord) : r.Noted r := ⟨rfl, rfl, rfl, rfl⟩

theorem Noted.trans (h : r.Noted r') (h' : r'.Noted r'') : r.Noted r'' where
  state_eq := h'.state_eq.trans h.state_eq
  startTime_eq := h'.startTime_eq.trans h.startTime_eq
  endTime_eq := h'.endTime_eq.trans h.endTime_eq
  error_eq := h'.error_eq.trans h.error_eq

theorem Noted.isFinal_eq (h : r.Noted r') : r'.isFinal = r.isFinal := by
  rw [isFinal, h.state_eq, isFinal]

/-- What relates a record to what is made of it once relates it to what is made of it again and
again. -/
theorem foldl_related {α : Type} {R : PhaseRecord → PhaseRecord → Prop} (hrefl : ∀ r, R r r)
    (htrans : ∀ {r r' r''}, R r r' → R r' r'' → R r r'') {f : PhaseRecord → α → PhaseRecord}
    (hf : ∀ r a, R r (f r a)) (l : List α) (r : PhaseRecord) : R r (l.foldl f r) := by
  induction l generalizing r with
  | nil => exact hrefl r
  | cons a rest ih => exact htrans (hf r a) (ih (f r a))

theorem leads_foldl {α : Type} {f : PhaseRecord → α → PhaseRecord}
    (hf : ∀ (r : PhaseRecord) a, r.Leads (f r a)) (l : List α) (r : PhaseRecord) :
    r.Leads (l.foldl f r) :=
  foldl_related .refl .trans hf l r

/-! ### Notes -/

theorem noted_setSubPhase (r : PhaseRecord) (text : String) : r.Noted (r.setSubPhase text) := by
  unfold setSubPhase
  split
  · exact .refl r
  · exact ⟨rfl, rfl, rfl, rfl⟩

theorem noted_addLog (r : PhaseRecord) (line : String) : r.Noted (r.addLog line) := by
  unfold addLog
  split
  · exact .refl r
  · exact ⟨rfl, rfl, rfl, rfl⟩

theorem noted_write (r : PhaseRecord) (note : Note) : r.Noted (note.write r) := by
  cases note with
  | subPhase text => exact r.noted_setSubPhase text
  | log line => exact r.noted_addLog line

theorem noted_writeAll (notes : List Note) (r : PhaseRecord) :
    r.Noted (notes.foldl Note.write r) :=
  foldl_related .refl .trans noted_write notes r

/-- A record is well timed by what notes do not touch. -/
theorem WellTimed.noted (h : r.WellTimed) (hnoted : r.Noted r') : r'.WellTimed where
  no_start hstate := hnoted.startTime_eq.trans (h.no_start (hnoted.state_eq ▸ hstate))
  no_end hopen := hnoted.endTime_eq.trans (h.no_end (hnoted.isFinal_eq ▸ hopen))
  has_start hstate := by
    rw [hnoted.startTime_eq]
    exact h.has_start (hnoted.state_eq ▸ hstate)
  has_end hfinal := by
    rw [hnoted.endTime_eq]
    exact h.has_end (hnoted.isFinal_eq ▸ hfinal)

/-- Notes are written at the end of the log, and into no record that is final. -/
theorem Noted.leads (h : r.Noted r') (hfrozen : r.isFinal = true → r' = r)
    (hlog : r.log <+: r'.log) : r.Leads r' where
  log_grows := hlog
  onward hr := ⟨hr.noted h, hfrozen, hlog, fun _ ht => h.startTime_eq.trans ht,
    fun _ ht => h.endTime_eq.trans ht⟩

theorem leads_setSubPhase (r : PhaseRecord) (text : String) : r.Leads (r.setSubPhase text) := by
  refine (r.noted_setSubPhase text).leads (fun h => setSubPhase_of_isFinal h text) ?_
  unfold setSubPhase
  split <;> exact List.prefix_rfl

theorem leads_addLog (r : PhaseRecord) (line : String) : r.Leads (r.addLog line) := by
  refine (r.noted_addLog line).leads (fun h => addLog_of_isFinal h line) ?_
  unfold addLog
  split
  · exact List.prefix_rfl
  · exact List.prefix_append ..

theorem leads_write (r : PhaseRecord) (note : Note) : r.Leads (note.write r) := by
  cases note with
  | subPhase text => exact r.leads_setSubPhase text
  | log line => exact r.leads_addLog line

/-! ### Beginning and end -/

theorem leads_start (r : PhaseRecord) (now : UInt64) : r.Leads (r.start now).1 := by
  unfold start
  split
  · rename_i hstate
    have hopen : r.isFinal = false := by
      rw [isFinal, hstate]
      rfl
    refine ⟨List.prefix_rfl, fun hr => ⟨?_, ?_⟩⟩
    · exact ⟨fun h => PhaseState.noConfusion h, fun _ => hr.no_end hopen, fun _ => rfl,
        fun h => absurd h Bool.false_ne_true⟩
    · refine ⟨fun hfinal => absurd (hfinal.symm.trans hopen) Bool.noConfusion, List.prefix_rfl,
        fun t ht => ?_, fun _ ht => ht⟩
      rw [hr.no_start hstate] at ht
      cases ht
  · exact .refl r

theorem leads_finish (r : PhaseRecord) {state : PhaseState} (hstate : state.isFinal = true)
    (now : UInt64) (error : Option String) : r.Leads (r.finish state now error).1 := by
  unfold finish
  split
  · exact .refl r
  · rename_i hopen
    refine ⟨List.prefix_rfl, fun hr => ⟨⟨?_, ?_, fun _ => rfl, fun _ => rfl⟩, ?_⟩⟩
    · rintro rfl
      exact absurd hstate Bool.false_ne_true
    · intro hfinal
      rw [isFinal, hstate] at hfinal
      exact Bool.noConfusion hfinal
    · refine ⟨fun hfinal => absurd hfinal hopen, List.prefix_rfl, fun t ht => ?_, fun t ht => ?_⟩
      · rw [ht]
        rfl
      · rw [hr.no_end (Bool.not_eq_true _ ▸ hopen)] at ht
        cases ht

theorem leads_succeed (r : PhaseRecord) (now : UInt64) : r.Leads (r.succeed now).1 :=
  r.leads_finish rfl now none

theorem leads_fail (r : PhaseRecord) (now : UInt64) (message : String) :
    r.Leads (r.fail now message).1 :=
  r.leads_finish rfl now (some message)

theorem leads_skip (r : PhaseRecord) (now : UInt64) (reason : String) :
    r.Leads (r.skip now reason).1 :=
  (r.leads_addLog reason).trans (leads_finish _ rfl now none)

end PhaseRecord

/-! ## Units -/

namespace UnitStatus

variable {a b : UnitStatus}

/-- No unit becomes one that is yet to be built. -/
theorem canBecome_pending (s : UnitStatus) : s.canBecome .pending = false := by
  cases s <;> rfl

/-- The work on a unit is not taken up again. -/
theorem isFinal_of_canBecome (h : a.canBecome b = true) (hb : b.isFinal = false) :
    a.isFinal = false := by
  revert h hb
  cases a <;> cases b <;> decide

/-- Only a unit that was with the build tool comes to success. -/
theorem started_of_canBecome (h : a.canBecome b = true) (hb : b.isSuccess = true) :
    a = .building ∨ a.isSuccess = true := by
  revert h hb
  cases a <;> cases b <;> decide

end UnitStatus

/-- From an earlier record of a unit to a later one: its status has moved along the edges, and
not back to the beginning, and times that are known do not change. -/
structure UnitRecord.Onward (u u' : UnitRecord) : Prop where
  status_moves : Relation.ReflTransGen (fun a b => a.canBecome b = true) u.status u'.status
  not_back : u'.status = .pending → u.status = .pending
  start_kept : ∀ t, u.startTime = some t → u'.startTime = some t
  end_kept : ∀ t, u.endTime = some t → u'.endTime = some t

/-- A unit has a start once it was given to the build tool, and an end just if the work on it is
over; and before it is attempted it has no start. -/
structure UnitRecord.WellTimed (u : UnitRecord) : Prop where
  no_start : u.status = .pending → u.startTime = none
  no_end : u.status.isFinal = false → u.endTime = none
  has_start : u.status = .building ∨ u.status.isSuccess = true → u.startTime.isSome = true
  has_end : u.status.isFinal = true → u.endTime.isSome = true

/-- A change of a record moves it forward, and if the record is well timed it stays so. -/
structure UnitRecord.Leads (u u' : UnitRecord) : Prop where
  onward : u.Onward u'
  wellTimed : u.WellTimed → u'.WellTimed

namespace UnitRecord

variable {u u' u'' : UnitRecord}

/-- A unit that is yet to be built. -/
theorem wellTimed_new (target version : String) :
    WellTimed { target := target, version := version } where
  no_start _ := rfl
  no_end _ := rfl
  has_start h := h.elim (fun h => nomatch h) fun h => nomatch h
  has_end h := absurd h Bool.false_ne_true

theorem Onward.refl (u : UnitRecord) : u.Onward u where
  status_moves := .refl
  not_back h := h
  start_kept _ ht := ht
  end_kept _ ht := ht

theorem Onward.trans (h : u.Onward u') (h' : u'.Onward u'') : u.Onward u'' where
  status_moves := h.status_moves.trans h'.status_moves
  not_back hu := h.not_back (h'.not_back hu)
  start_kept t ht := h'.start_kept t (h.start_kept t ht)
  end_kept t ht := h'.end_kept t (h.end_kept t ht)

theorem onward_move (u : UnitRecord) (next : UnitStatus) (now : UInt64) :
    u.Onward (u.move next now).1 := by
  unfold move
  split
  · rename_i hmove
    refine ⟨.single hmove, ?_, fun t ht => ?_, fun t ht => ?_⟩
    · rintro rfl
      rw [UnitStatus.canBecome_pending] at hmove
      exact absurd hmove Bool.false_ne_true
    · dsimp only
      split <;> simp [ht]
    · dsimp only
      split <;> simp [ht]
  · exact .refl u

theorem Leads.refl (u : UnitRecord) : u.Leads u := ⟨.refl u, id⟩

theorem Leads.trans (h : u.Leads u') (h' : u'.Leads u'') : u.Leads u'' :=
  ⟨h.onward.trans h'.onward, fun hu => h'.wellTimed (h.wellTimed hu)⟩

/-- What does not touch the status and the times of a unit moves it forward. -/
theorem leads_of_eq (hstatus : u'.status = u.status) (hstart : u'.startTime = u.startTime)
    (hend : u'.endTime = u.endTime) : u.Leads u' where
  onward := by
    refine ⟨?_, fun h => hstatus.symm.trans h, fun _ ht => hstart.trans ht,
      fun _ ht => hend.trans ht⟩
    rw [hstatus]
  wellTimed h := by
    refine ⟨?_, ?_, ?_, ?_⟩
    · rw [hstatus, hstart]
      exact h.no_start
    · rw [hstatus, hend]
      exact h.no_end
    · rw [hstatus, hstart]
      exact h.has_start
    · rw [hstatus, hend]
      exact h.has_end

theorem leads_addArtifact (u : UnitRecord) (a : Artifact) : u.Leads (u.addArtifact a) :=
  leads_of_eq rfl rfl rfl

theorem leads_addLog (u : UnitRecord) (text : String) : u.Leads (u.addLog text) :=
  leads_of_eq rfl rfl rfl

/-- A unit that moves to success or to the build tool has a start, since it was with the build
tool before or comes there now. -/
theorem leads_move (u : UnitRecord) (next : UnitStatus) (now : UInt64) :
    u.Leads (u.move next now).1 := by
  refine ⟨u.onward_move next now, fun h => ?_⟩
  unfold move
  split
  · rename_i hmove
    refine ⟨?_, ?_, ?_, ?_⟩
    · rintro rfl
      rw [UnitStatus.canBecome_pending] at hmove
      exact absurd hmove Bool.false_ne_true
    · intro hopen
      dsimp only at hopen ⊢
      rw [hopen]
      exact h.no_end (UnitStatus.isFinal_of_canBecome hmove hopen)
    · intro hstarted
      dsimp only at hstarted ⊢
      split
      · rfl
      · rename_i hne
        exact h.has_start (UnitStatus.started_of_canBecome hmove (hstarted.resolve_left hne))
    · intro hfinal
      dsimp only at hfinal ⊢
      rw [hfinal]
      rfl
  · exact h

theorem leads_fail (u : UnitRecord) (message : String) (now : UInt64) :
    u.Leads (u.fail message now).1 := by
  have hmove : u.Leads (u.move .failed now).1 := u.leads_move .failed now
  unfold fail
  split
  · rename_i u' heq
    rw [heq] at hmove
    exact hmove.trans (leads_of_eq rfl rfl rfl)
  · exact .refl u

theorem leads_published (lake : Workspace) (unit label : String) (now : UInt64)
    (u : UnitRecord) : u.Leads (Pipeline.publishedUnit lake unit label now u) := by
  unfold Pipeline.publishedUnit
  extract_lets v
  have hv : u.Leads v := by
    unfold v
    split
    · exact u.leads_addArtifact _
    · exact .refl u
  split
  · exact hv.trans (v.leads_move .published now)
  · exact hv

end UnitRecord

/-! ## The whole progress -/

/-- The records of all phases and units are well timed. -/
structure Progress.WellTimed (p : Progress) : Prop where
  phases : ∀ phase, (p.phases.get phase).WellTimed
  units : ∀ key u, p.units.get? key = some u → u.WellTimed

/-- From an earlier progress of a build to a later one.  What was asked for stays what it was;
the stage, the phases and the units only move forward, and no unit is taken away. -/
structure Progress.Onward (p p' : Progress) : Prop where
  stage : p.stage.canAdvanceTo p'.stage = true
  phases : ∀ phase, (p.phases.get phase).Onward (p'.phases.get phase)
  units : ∀ key u, p.units.get? key = some u → ∃ u', p'.units.get? key = some u' ∧ u.Onward u'
  target_eq : p'.target = p.target
  branch_eq : p'.branch = p.branch
  startTime_eq : p'.startTime = p.startTime
  lake_eq : p'.lake = p.lake

/-- The logs of one progress are the beginnings of those of another. -/
def Progress.LogsGrow (p p' : Progress) : Prop :=
  ∀ phase, (p.phases.get phase).log <+: (p'.phases.get phase).log

/-- A change of a progress adds to the logs only, and if the progress is well timed it stays so and
moves forward. -/
structure Progress.Leads (p p' : Progress) : Prop where
  logs_grow : p.LogsGrow p'
  onward : p.WellTimed → p'.WellTimed ∧ p.Onward p'

namespace Progress

variable {p p' p'' : Progress}

theorem wellTimed_initial (lake : Workspace) (target branch : String) (now : UInt64) :
    (initial lake target branch now).WellTimed where
  phases phase := by cases phase <;> exact PhaseRecord.wellTimed_new
  units _ _ hu := nomatch hu

theorem WellTimed.modifyPhase (h : p.WellTimed) {phase : Phase} {f : PhaseRecord → PhaseRecord}
    (hf : ∀ r : PhaseRecord, r.WellTimed → (f r).WellTimed) :
    (p.modifyPhase phase f).WellTimed where
  phases r := by
    rw [Progress.modifyPhase, PhaseRecords.get_modify]
    split
    · exact hf _ (h.phases r)
    · exact h.phases r
  units := h.units

theorem LogsGrow.refl (p : Progress) : p.LogsGrow p := fun _ => List.prefix_rfl

theorem LogsGrow.trans (h : p.LogsGrow p') (h' : p'.LogsGrow p'') : p.LogsGrow p'' :=
  fun phase => (h phase).trans (h' phase)

theorem Onward.refl (p : Progress) : p.Onward p where
  stage := p.stage.canAdvanceTo_refl
  phases _ := .refl _
  units _ u hu := ⟨u, hu, .refl u⟩
  target_eq := rfl
  branch_eq := rfl
  startTime_eq := rfl
  lake_eq := rfl

theorem Onward.trans (h : p.Onward p') (h' : p'.Onward p'') : p.Onward p'' where
  stage := Stage.canAdvanceTo_trans h.stage h'.stage
  phases phase := (h.phases phase).trans (h'.phases phase)
  units key u hu := by
    obtain ⟨u', hu', hto⟩ := h.units key u hu
    obtain ⟨u'', hu'', hto'⟩ := h'.units key u' hu'
    exact ⟨u'', hu'', hto.trans hto'⟩
  target_eq := h'.target_eq.trans h.target_eq
  branch_eq := h'.branch_eq.trans h.branch_eq
  startTime_eq := h'.startTime_eq.trans h.startTime_eq
  lake_eq := h'.lake_eq.trans h.lake_eq

theorem onward_advance (p : Progress) (stage : Stage) : p.Onward (p.advance stage).1 := by
  unfold advance
  split
  · rename_i hcan
    exact { Onward.refl p with stage := hcan }
  · exact .refl p

theorem leads_advance (p : Progress) (stage : Stage) : p.Leads (p.advance stage).1 := by
  unfold advance
  split
  · rename_i hcan
    exact ⟨.refl _, fun hp => ⟨⟨hp.phases, hp.units⟩,
      { Onward.refl p with stage := hcan }⟩⟩
  · exact ⟨.refl _, fun hp => ⟨hp, .refl p⟩⟩

theorem leads_modifyPhase {f : PhaseRecord → PhaseRecord}
    (hf : ∀ r : PhaseRecord, r.Leads (f r)) (p : Progress) (phase : Phase) :
    p.Leads (p.modifyPhase phase f) := by
  have hget : ∀ q, (p.phases.get q).Leads ((p.modifyPhase phase f).phases.get q) := by
    intro q
    rw [modifyPhase, PhaseRecords.get_modify]
    split
    · exact hf _
    · exact .refl _
  refine ⟨fun q => (hget q).log_grows, fun hp => ⟨⟨fun q => ?_, hp.units⟩, ?_⟩⟩
  · exact ((hget q).onward (hp.phases q)).1
  · exact { Onward.refl p with phases := fun q => ((hget q).onward (hp.phases q)).2 }

theorem leads_modifyUnit {g : UnitRecord → UnitRecord} (hg : ∀ u : UnitRecord, u.Leads (g u))
    (p : Progress) (unit : String) : p.Leads (p.modifyUnit unit g) := by
  -- each unit of the changed progress comes from one before, and each one before goes on
  have hget : ∀ key, (p.modifyUnit unit g).units.get? key =
      (p.units.get? key).map fun u => if key = unit then g u else u :=
    fun key => StringMap.get?_update p.units unit key g
  have hleads : ∀ key (u : UnitRecord), u.Leads (if key = unit then g u else u) := by
    intro key u
    split
    · exact hg u
    · exact .refl u
  refine ⟨.refl _, fun hp => ⟨⟨hp.phases, fun key v hv => ?_⟩, ?_⟩⟩
  · rw [hget, Option.map_eq_some_iff] at hv
    obtain ⟨u, hu, rfl⟩ := hv
    exact (hleads key u).wellTimed (hp.units key u hu)
  · refine { Onward.refl p with units := fun key u hu => ?_ }
    rw [hget, hu]
    exact ⟨_, rfl, (hleads key u).onward⟩

/-- To a progress that has no units yet units that are yet to be built can be added. -/
theorem leads_insertAll (h : p.units = ∅) (units : List String) (version : String) :
    p.Leads
      { p with
        units :=
          units.foldl (fun m u => m.insert u { target := u, version := version }) p.units } := by
  refine ⟨.refl _, fun hp => ⟨⟨hp.phases, fun key u hu => ?_⟩, ?_⟩⟩
  · rcases StringMap.get?_foldl_insert hu with ⟨-, rfl⟩ | hu
    · exact UnitRecord.wellTimed_new key version
    · exact hp.units key u hu
  · refine { Onward.refl p with units := fun key u hu => ?_ }
    rw [h] at hu
    exact nomatch hu

end Progress
end ProtoBuild
