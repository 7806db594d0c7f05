import ProtoBuild.Proofs.Pipeline.Parts
import ProtoBuild.Proofs.StringMap.Values

/-!
# The tally of the units

While a build goes through its units, those that it has left behind were built or have failed
(`UnitRecord.Judged`), the others wait, and the number of failures is that of the failed units:
this is `Progress.Tally`.  `Progress.Trying` is the same while one unit is with the build tool.

No phase fails meanwhile.  Nearly every change of a record spares it a failure
(`PhaseRecord.Spares`), and the exceptions end the build or the phase.
-/

namespace ProtoBuild

/-! ## Phases that have not failed -/

namespace PhaseRecord

/-- A phase that has not failed is led to one that has not failed either. -/
def Spares (r r' : PhaseRecord) : Prop := r.state ≠ .failed → r'.state ≠ .failed

theorem spares_start (r : PhaseRecord) (now : UInt64) : r.Spares (r.start now).1 := by
  unfold start
  split
  · exact fun _ => PhaseState.noConfusion
  · exact id

theorem spares_setSubPhase (r : PhaseRecord) (text : String) : r.Spares (r.setSubPhase text) := by
  unfold setSubPhase
  split <;> exact id

theorem spares_addLog (r : PhaseRecord) (line : String) : r.Spares (r.addLog line) := by
  unfold addLog
  split <;> exact id

theorem spares_finish (r : PhaseRecord) {state : PhaseState} (h : state ≠ .failed) (now : UInt64)
    (error : Option String) : r.Spares (r.finish state now error).1 := by
  unfold finish
  split
  · exact id
  · exact fun _ => h

theorem spares_succeed (r : PhaseRecord) (now : UInt64) : r.Spares (r.succeed now).1 :=
  r.spares_finish PhaseState.noConfusion now none

theorem spares_skip (r : PhaseRecord) (now : UInt64) (reason : String) :
    r.Spares (r.skip now reason).1 :=
  fun hr => spares_finish _ PhaseState.noConfusion now none (r.spares_addLog reason hr)

theorem spares_write (r : PhaseRecord) (note : Note) : r.Spares (note.write r) := by
  cases note with
  | subPhase text => exact r.spares_setSubPhase text
  | log line => exact r.spares_addLog line

/-- What is done again and again spares a phase if each time does. -/
theorem spares_foldl {α : Type} {f : PhaseRecord → α → PhaseRecord}
    (hf : ∀ (r : PhaseRecord) a, r.Spares (f r a)) (l : List α) (r : PhaseRecord) :
    r.Spares (l.foldl f r) := by
  induction l generalizing r with
  | nil => exact id
  | cons a rest ih => exact fun hr => ih (f r a) (hf r a hr)

/-- A phase that fails has an error. -/
theorem error_of_fail {r : PhaseRecord} (hr : r.state ≠ .failed) (now : UInt64) (message : String)
    (h : (r.fail now message).1.state = .failed) : (r.fail now message).1.error.isSome = true := by
  unfold fail finish at h ⊢
  split
  · rename_i hfinal
    rw [if_pos hfinal] at h
    exact absurd h hr
  · rfl

end PhaseRecord

/-! ## Units that were attempted -/

/-- A unit was built, and perhaps published, or it has failed with an error. -/
def UnitRecord.Judged (u : UnitRecord) : Prop :=
  u.status.isSuccess = true ∨ u.status = .failed ∧ u.error.isSome = true

theorem UnitRecord.status_built {u : UnitRecord} (h : u.status = .building) (now : UInt64) :
    (u.move .built now).1.status = .built := by
  rw [status_move, h]
  rfl

theorem UnitRecord.fail_of_building {u : UnitRecord} (h : u.status = .building) (message : String)
    (now : UInt64) :
    (u.fail message now).1.status = .failed ∧ (u.fail message now).1.error = some message := by
  simp [fail, move, h, UnitStatus.canBecome]

namespace Progress

variable {p : Progress} {unit key : String} {u : UnitRecord} {rest : List String}
  {total failed failed' : Nat} {g : UnitRecord → UnitRecord} {f : PhaseRecord → PhaseRecord}

/-! ## Before the units are known -/

/-- No phase has failed. -/
def Unfailed (p : Progress) : Prop := ∀ q, (p.phases.get q).state ≠ .failed

/-- No phase has failed, and there are no units yet. -/
structure Fresh (p : Progress) : Prop where
  unfailed : p.Unfailed
  units_eq : p.units = ∅

theorem Unfailed.modifyPhase (h : p.Unfailed) (phase : Phase)
    (hf : ∀ r : PhaseRecord, r.Spares (f r)) : (p.modifyPhase phase f).Unfailed := by
  intro q
  rw [phases_modifyPhase, PhaseRecords.get_modify]
  split
  · exact hf _ (h q)
  · exact h q

theorem Fresh.modifyPhase (h : p.Fresh) (phase : Phase)
    (hf : ∀ r : PhaseRecord, r.Spares (f r)) : (p.modifyPhase phase f).Fresh :=
  ⟨h.unfailed.modifyPhase phase hf, h.units_eq⟩

theorem Fresh.enter (h : p.Fresh) (phase : Phase) (time : UInt64) :
    (Pipeline.enteredInto phase time p).Fresh := by
  have hadvanced : (p.advance phase.stage).1.Fresh :=
    { unfailed := fun q => by
        rw [phases_advance]
        exact h.unfailed q
      units_eq := units_advance.trans h.units_eq }
  exact hadvanced.modifyPhase phase fun r => r.spares_start time

/-! ## How many units have failed -/

theorem count_statuses (p : Progress) (status : UnitStatus) :
    p.statuses.count status = p.units.values.countP fun u => u.status == status := by
  rw [statuses, List.count_eq_countP, List.countP_map]
  rfl

theorem length_statuses (p : Progress) : p.statuses.length = p.units.size := by
  rw [statuses, List.length_map, StringMap.length_values]

/-- How the number of failed units moves with one unit. -/
theorem count_failed_modifyUnit (h : p.units.get? unit = some u) (g : UnitRecord → UnitRecord) :
    (p.modifyUnit unit g).statuses.count .failed + (if u.status = .failed then 1 else 0) =
      p.statuses.count .failed + if (g u).status = .failed then 1 else 0 := by
  have hcount := StringMap.countP_update h g fun u => u.status == .failed
  simpa [count_statuses, modifyUnit] using hcount

theorem count_failed_of_iff (hg : ∀ u : UnitRecord, (g u).status = .failed ↔ u.status = .failed)
    (p : Progress) (unit : String) :
    (p.modifyUnit unit g).statuses.count .failed = p.statuses.count .failed := by
  rw [count_statuses, count_statuses]
  exact StringMap.countP_update_of_iff (fun u => by simp [hg u]) p.units unit

/-! ## While the units are built -/

/-- Of the units of a build those of the rest wait, the others are judged, and some number of
them has failed. -/
structure Tally (rest : List String) (total failed : Nat) (p : Progress) : Prop where
  size_eq : p.units.size = total
  waiting : ∀ key ∈ rest, ∃ u, p.units.get? key = some u ∧ u.status = .pending
  judged : ∀ key u, key ∉ rest → p.units.get? key = some u → u.Judged
  failed_eq : p.statuses.count .failed = failed
  unfailed : p.Unfailed

/-- One unit is with the build tool. -/
structure Trying (unit : String) (rest : List String) (total failed : Nat) (p : Progress) :
    Prop where
  current : ∃ u, p.units.get? unit = some u ∧ u.status = .building
  notin : unit ∉ rest
  size_eq : p.units.size = total
  waiting : ∀ key ∈ rest, ∃ u, p.units.get? key = some u ∧ u.status = .pending
  judged : ∀ key u, key ≠ unit → key ∉ rest → p.units.get? key = some u → u.Judged
  failed_eq : p.statuses.count .failed = failed
  unfailed : p.Unfailed

theorem Tally.modifyPhase (h : p.Tally rest total failed) (phase : Phase)
    (hf : ∀ r : PhaseRecord, r.Spares (f r)) :
    (p.modifyPhase phase f).Tally rest total failed :=
  ⟨h.size_eq, h.waiting, h.judged, h.failed_eq, h.unfailed.modifyPhase phase hf⟩

/-- The next unit is given to the build tool. -/
theorem Tally.attempt (h : p.Tally (unit :: rest) total failed) (hunit : unit ∉ rest)
    (time : UInt64) :
    (p.modifyUnit unit fun u => (u.move .building time).1).Trying unit rest total failed := by
  obtain ⟨u, hu, hpending⟩ := h.waiting unit List.mem_cons_self
  have hmoved : (u.move .building time).1.status = .building := by
    rw [UnitRecord.status_move, hpending]
    rfl
  refine
    { current := ⟨_, get?_modifyUnit_self hu, hmoved⟩
      notin := hunit
      size_eq := ?_
      waiting := fun key hkey => ?_
      judged := fun key v hne hkey hv => ?_
      failed_eq := ?_
      unfailed := h.unfailed }
  · rw [← h.size_eq]
    exact StringMap.size_update ..
  · have hne : key ≠ unit := fun heq => hunit (heq ▸ hkey)
    rw [get?_modifyUnit_of_ne hne]
    exact h.waiting key (List.mem_cons_of_mem unit hkey)
  · rw [get?_modifyUnit_of_ne hne] at hv
    exact h.judged key v (by simp [hne, hkey]) hv
  · have hcount := count_failed_modifyUnit hu fun u => (u.move .building time).1
    simp only [hmoved, hpending, reduceCtorEq, if_false] at hcount
    rw [← h.failed_eq]
    exact hcount

/-- What is written into the record of the unit while it is with the build tool. -/
theorem Trying.addLog (h : p.Trying unit rest total failed) (text : String) :
    (p.modifyUnit unit (·.addLog text)).Trying unit rest total failed := by
  obtain ⟨u, hu, hbuilding⟩ := h.current
  refine
    { current := ⟨_, get?_modifyUnit_self hu, hbuilding⟩
      notin := h.notin
      size_eq := ?_
      waiting := fun key hkey => ?_
      judged := fun key v hne hkey hv => ?_
      failed_eq := ?_
      unfailed := h.unfailed }
  · rw [← h.size_eq]
    exact StringMap.size_update ..
  · have hne : key ≠ unit := fun heq => h.notin (heq ▸ hkey)
    rw [get?_modifyUnit_of_ne hne]
    exact h.waiting key hkey
  · rw [get?_modifyUnit_of_ne hne] at hv
    exact h.judged key v hne hkey hv
  · rw [← h.failed_eq]
    exact count_failed_of_iff (g := (·.addLog text)) (fun u => Iff.rfl) p unit

/-- The unit that was with the build tool is judged. -/
theorem Trying.judge (h : p.Trying unit rest total failed)
    (hg : ∀ u : UnitRecord, u.status = .building → (g u).Judged)
    (hcount : ∀ u : UnitRecord, u.status = .building →
      failed + (if (g u).status = .failed then 1 else 0) = failed') :
    (p.modifyUnit unit g).Tally rest total failed' := by
  obtain ⟨u, hu, hbuilding⟩ := h.current
  refine
    { size_eq := ?_
      waiting := fun key hkey => ?_
      judged := fun key v hkey hv => ?_
      failed_eq := ?_
      unfailed := h.unfailed }
  · rw [← h.size_eq]
    exact StringMap.size_update ..
  · have hne : key ≠ unit := fun heq => h.notin (heq ▸ hkey)
    rw [get?_modifyUnit_of_ne hne]
    exact h.waiting key hkey
  · by_cases hne : key = unit
    · subst hne
      rw [get?_modifyUnit_self hu] at hv
      obtain rfl := Option.some.inj hv
      exact hg u hbuilding
    · rw [get?_modifyUnit_of_ne hne] at hv
      exact h.judged key v hne hkey hv
  · have hmoves := count_failed_modifyUnit hu g
    rw [hbuilding, h.failed_eq, hcount u hbuilding] at hmoves
    simpa using hmoves

theorem Trying.built (h : p.Trying unit rest total failed) (time : UInt64) :
    (p.modifyUnit unit fun u => (u.move .built time).1).Tally rest total failed := by
  refine h.judge (fun u hu => Or.inl ?_) fun u hu => ?_
  · rw [UnitRecord.status_built hu]
    rfl
  · rw [UnitRecord.status_built hu]
    rfl

theorem Trying.fail (h : p.Trying unit rest total failed) (reason : String) (time : UInt64) :
    (p.modifyUnit unit fun u => (u.fail reason time).1).Tally rest total (failed + 1) := by
  refine h.judge (fun u hu => Or.inr ?_) fun u hu => ?_
  · obtain ⟨hstatus, herror⟩ := UnitRecord.fail_of_building hu reason time
    exact ⟨hstatus, by rw [herror]; rfl⟩
  · rw [(UnitRecord.fail_of_building hu reason time).1, if_pos rfl]

/-- Of the units that are added all wait. -/
theorem tally_insertAll (h : p.Fresh) {units : List String} (hunits : units.Nodup)
    (version : String) :
    Tally units units.length 0
      { p with
        units :=
          units.foldl (fun m u => m.insert u { target := u, version := version }) p.units } := by
  have hget : ∀ key,
      (units.foldl (fun m u => m.insert u { target := u, version := version }) p.units).get? key =
        if key ∈ units then some { target := key, version := version } else none := by
    intro key
    rw [h.units_eq]
    exact StringMap.get?_foldl_insert_eq units ∅ key
  refine
    { size_eq := ?_
      waiting := fun key hkey => ⟨_, (hget key).trans (if_pos hkey), rfl⟩
      judged := fun key u hkey hu => ?_
      failed_eq := ?_
      unfailed := h.unfailed }
  · rw [StringMap.size_foldl_insert hunits fun key _ => by rw [h.units_eq]; rfl, h.units_eq]
    exact Nat.zero_add _
  · rw [hget key, if_neg hkey] at hu
    exact nomatch hu
  · rw [count_statuses, List.countP_eq_zero]
    intro u hu
    obtain ⟨key, hkey⟩ := StringMap.mem_values_iff.mp hu
    rw [hget key] at hkey
    split at hkey
    · obtain rfl := Option.some.inj hkey
      exact Bool.false_ne_true
    · exact nomatch hkey

end Progress
end ProtoBuild
