import Mathlib.Data.List.Basic
import ProtoBuild.Proofs.Pipeline.Phases
import ProtoBuild.Proofs.Progress.Onward

/-!
# The times that a progress records

A build writes down when it began, when its phases have started and ended, and when the units were
given to the build tool and came back.  `Progress.timeline` is the list of all of these, in the
order in which they should follow one another: the units that were attempted stand within the build
phase, one after another, each with its start before its end.

Up to some phase the list is `Progress.timesUpTo`.  Each change that sets a time puts it at the end
of this list: the start of a phase that is entered (`timesUpTo_entered`), the end of one that is
running (`timesUpTo_ended`), and both times of a unit (`timesUpTo_attempted`).  All other changes
leave the list alone (`timesUpTo_congr`).

A time that is not known is not in the list.  So it is said apart which of them are known
(`UnitRecord.Timed`, `Progress.AllTimed`), and that known times of units do not change
(`Progress.KeepsTimes`).
-/

namespace ProtoBuild

/-! ## Units -/

/-- Both times of a unit are known. -/
structure UnitRecord.Timed (u : UnitRecord) : Prop where
  start : u.startTime.isSome = true
  finish : u.endTime.isSome = true

/-- What is known of the status and the times of a unit. -/
structure UnitRecord.At (status : UnitStatus) (start finish : Option UInt64) (u : UnitRecord) :
    Prop where
  status_eq : u.status = status
  startTime_eq : u.startTime = start
  endTime_eq : u.endTime = finish

/-- A unit was with the build tool from one time to another. -/
structure UnitRecord.Spans (started ended : UInt64) (u : UnitRecord) : Prop where
  startTime_eq : u.startTime = some started
  endTime_eq : u.endTime = some ended

namespace UnitRecord

variable {u u' : UnitRecord} {status : UnitStatus} {started ended : Option UInt64}

/-- The times that are known of a unit. -/
def times (u : UnitRecord) : List UInt64 := u.startTime.toList ++ u.endTime.toList

/-- Once both times of a unit are known they do not change any more. -/
theorem Timed.kept (h : u.Timed) (hto : u.Onward u') :
    u'.startTime = u.startTime ∧ u'.endTime = u.endTime := by
  obtain ⟨a, ha⟩ := Option.isSome_iff_exists.mp h.start
  obtain ⟨b, hb⟩ := Option.isSome_iff_exists.mp h.finish
  exact ⟨(hto.start_kept a ha).trans ha.symm, (hto.end_kept b hb).trans hb.symm⟩

theorem Timed.onward (h : u.Timed) (hto : u.Onward u') : u'.Timed := by
  obtain ⟨hstart, hend⟩ := h.kept hto
  exact ⟨by rw [hstart]; exact h.start, by rw [hend]; exact h.finish⟩

/-- A unit that waits has no times. -/
theorem WellTimed.at_pending (h : u.WellTimed) (hu : u.status = .pending) :
    u.At .pending none none :=
  ⟨hu, h.no_start hu, h.no_end (by rw [hu]; rfl)⟩

theorem At.spans {a b : UInt64} (h : u.At status (some a) (some b)) : u.Spans a b :=
  ⟨h.startTime_eq, h.endTime_eq⟩

theorem Spans.timed {a b : UInt64} (h : u.Spans a b) : u.Timed :=
  ⟨by rw [h.startTime_eq]; rfl, by rw [h.endTime_eq]; rfl⟩

theorem Spans.times_eq {a b : UInt64} (h : u.Spans a b) : u.times = [a, b] := by
  rw [times, h.startTime_eq, h.endTime_eq]
  rfl

theorem move_of_canBecome {next : UnitStatus} (h : u.status.canBecome next = true)
    (now : UInt64) :
    u.move next now =
      ({ u with
          status := next
          startTime := if next = .building then some (u.startTime.getD now) else u.startTime
          endTime := if next.isFinal then some (u.endTime.getD now) else u.endTime }, true) := by
  rw [move, if_pos h]

/-- A unit is given to the build tool. -/
theorem At.building (h : u.At .pending none none) (time : UInt64) :
    (u.move .building time).1.At .building (some time) none := by
  rw [move_of_canBecome (by rw [h.status_eq]; rfl), h.startTime_eq]
  exact ⟨rfl, rfl, h.endTime_eq⟩

theorem At.addLog (h : u.At status started ended) (text : String) :
    (u.addLog text).At status started ended :=
  ⟨h.status_eq, h.startTime_eq, h.endTime_eq⟩

/-- A unit comes back from the build tool. -/
theorem At.built (h : u.At .building started none) (time : UInt64) :
    (u.move .built time).1.At .built started (some time) := by
  rw [move_of_canBecome (by rw [h.status_eq]; rfl), h.endTime_eq]
  exact ⟨rfl, h.startTime_eq, rfl⟩

theorem At.fail (h : u.At .building started none) (message : String) (time : UInt64) :
    (u.fail message time).1.At .failed started (some time) := by
  rw [UnitRecord.fail, move_of_canBecome (by rw [h.status_eq]; rfl), h.endTime_eq]
  exact ⟨rfl, h.startTime_eq, rfl⟩

end UnitRecord

namespace Progress

variable {p p' : Progress} {attempted : List String} {unit : String} {q : Phase} {k : Nat}
  {time : UInt64} {f : PhaseRecord → PhaseRecord} {g : UnitRecord → UnitRecord}
  {P P' : UnitRecord → Prop}

/-! ## Timelines -/

/-- The times that are known of a unit, if it is there. -/
def unitTimes (p : Progress) (unit : String) : List UInt64 :=
  ((p.units.get? unit).map UnitRecord.times).getD []

/-- The times that are known of a phase.  Those of the units that were attempted lie within the
build phase. -/
def phaseTimes (attempted : List String) (p : Progress) (q : Phase) : List UInt64 :=
  (p.phases.get q).startTime.toList ++ (if q = .build then attempted.flatMap p.unitTimes else []) ++
    (p.phases.get q).endTime.toList

/-- The times of the first phases, one phase after another. -/
def timesUpTo (attempted : List String) (p : Progress) (k : Nat) : List UInt64 :=
  (Phase.all.take k).flatMap (p.phaseTimes attempted)

/-- All times that a progress records, beginning with that of the request. -/
def timeline (attempted : List String) (p : Progress) : List UInt64 :=
  p.startTime :: Phase.all.flatMap (p.phaseTimes attempted)

/-- Some units have both times. -/
def AllTimed (attempted : List String) (p : Progress) : Prop :=
  ∀ unit ∈ attempted, ∃ u, p.units.get? unit = some u ∧ u.Timed

theorem AllTimed.onward (h : p.AllTimed attempted)
    (hto : ∀ key u, p.units.get? key = some u → ∃ u', p'.units.get? key = some u' ∧ u.Onward u') :
    p'.AllTimed attempted ∧ ∀ unit ∈ attempted, p'.unitTimes unit = p.unitTimes unit := by
  refine ⟨fun unit hunit => ?_, fun unit hunit => ?_⟩
  · obtain ⟨u, hu, htimed⟩ := h unit hunit
    obtain ⟨u', hu', honward⟩ := hto unit u hu
    exact ⟨u', hu', htimed.onward honward⟩
  · obtain ⟨u, hu, htimed⟩ := h unit hunit
    obtain ⟨u', hu', honward⟩ := hto unit u hu
    obtain ⟨hstart, hend⟩ := htimed.kept honward
    rw [unitTimes, unitTimes, hu, hu', Option.map_some, Option.map_some, UnitRecord.times, hstart,
      hend, UnitRecord.times]

theorem timesUpTo_succ (attempted : List String) (p : Progress) (q : Phase) :
    p.timesUpTo attempted (q.index + 1) =
      p.timesUpTo attempted q.index ++ p.phaseTimes attempted q := by
  rw [timesUpTo, Phase.take_succ, List.flatMap_append, List.flatMap_singleton, timesUpTo]

theorem phaseTimes_congr
    (hstart : (p'.phases.get q).startTime = (p.phases.get q).startTime)
    (hend : (p'.phases.get q).endTime = (p.phases.get q).endTime)
    (hunits : ∀ unit ∈ attempted, p'.unitTimes unit = p.unitTimes unit) :
    p'.phaseTimes attempted q = p.phaseTimes attempted q := by
  rw [phaseTimes, hstart, hend, List.flatMap_congr hunits, phaseTimes]

/-- The list depends on the times of the first phases and of the units only. -/
theorem timesUpTo_congr
    (hphases : ∀ q : Phase, q.index < k →
      (p'.phases.get q).startTime = (p.phases.get q).startTime ∧
        (p'.phases.get q).endTime = (p.phases.get q).endTime)
    (hunits : ∀ unit ∈ attempted, p'.unitTimes unit = p.unitTimes unit) :
    p'.timesUpTo attempted k = p.timesUpTo attempted k := by
  refine List.flatMap_congr fun q hq => ?_
  obtain ⟨hstart, hend⟩ := hphases q (Phase.mem_take_iff.mp hq)
  exact phaseTimes_congr hstart hend hunits

/-- What is done to a phase does not matter to the times before it. -/
theorem timesUpTo_modifyPhase (p : Progress) (q : Phase) (f : PhaseRecord → PhaseRecord) :
    (p.modifyPhase q f).timesUpTo attempted q.index = p.timesUpTo attempted q.index := by
  refine timesUpTo_congr (fun r hr => ?_) fun _ _ => rfl
  have hne : r ≠ q := fun heq => absurd hr (by rw [heq]; exact Nat.lt_irrefl _)
  rw [get_modifyPhase_of_ne hne]
  exact ⟨rfl, rfl⟩

/-- A phase that has not started has no times. -/
theorem phaseTimes_eq_nil (hp : (p.phases.get q).WellTimed)
    (hq : (p.phases.get q).state = .notStarted) (hattempted : q = .build → attempted = []) :
    p.phaseTimes attempted q = [] := by
  rw [phaseTimes, hp.no_start hq, hp.no_end (PhaseRecord.isFinal_of_state hq)]
  split
  · rename_i hbuild
    rw [hattempted hbuild]
    rfl
  · rfl

/-- A phase that is entered has its start. -/
theorem timesUpTo_entered (hp : (p.phases.get q).WellTimed)
    (hq : (p.phases.get q).state = .notStarted) (hattempted : q = .build → attempted = []) :
    (p.modifyPhase q fun r => (r.start time).1).timesUpTo attempted (q.index + 1) =
      p.timesUpTo attempted q.index ++ [time] := by
  have hrecord : (p.modifyPhase q fun r => (r.start time).1).phases.get q =
      { p.phases.get q with state := .running, startTime := some time } := by
    rw [get_modifyPhase_self, PhaseRecord.start, if_pos hq]
  have hempty := phaseTimes_eq_nil hp hq hattempted
  rw [phaseTimes, hp.no_start hq] at hempty
  rw [timesUpTo_succ, timesUpTo_modifyPhase, phaseTimes, hrecord]
  exact congrArg (fun l => p.timesUpTo attempted q.index ++ time :: l) hempty

/-- A phase that is running comes to its end. -/
theorem timesUpTo_ended (hopen : (p.phases.get q).endTime = none)
    (hstart : (f (p.phases.get q)).startTime = (p.phases.get q).startTime)
    (hend : (f (p.phases.get q)).endTime = some time) :
    (p.modifyPhase q f).timesUpTo attempted (q.index + 1) =
      p.timesUpTo attempted (q.index + 1) ++ [time] := by
  rw [timesUpTo_succ, timesUpTo_succ, timesUpTo_modifyPhase, List.append_assoc]
  congr 1
  rw [phaseTimes, phaseTimes, get_modifyPhase_self, hstart, hend, hopen, Option.toList_none,
    List.append_nil]
  rfl

/-- One more unit was attempted in the build phase. -/
theorem timesUpTo_attempted {started ended : UInt64}
    (hopen : (p.phases.get .build).endTime = none)
    (hnoted : ∀ q, (p.phases.get q).Noted (p'.phases.get q))
    (hunits : ∀ unit ∈ attempted, p'.unitTimes unit = p.unitTimes unit)
    (hunit : p'.unitTimes unit = [started, ended]) :
    p'.timesUpTo (attempted ++ [unit]) (Phase.build.index + 1) =
      p.timesUpTo attempted (Phase.build.index + 1) ++ [started, ended] := by
  have hbefore : p'.timesUpTo (attempted ++ [unit]) Phase.build.index =
      p.timesUpTo attempted Phase.build.index := by
    refine List.flatMap_congr fun q hq => ?_
    have hne : q ≠ .build := by
      rintro rfl
      exact absurd (Phase.mem_take_iff.mp hq) (Nat.lt_irrefl _)
    rw [phaseTimes, phaseTimes, if_neg hne, if_neg hne, (hnoted q).startTime_eq,
      (hnoted q).endTime_eq]
  rw [timesUpTo_succ, timesUpTo_succ, hbefore, List.append_assoc]
  congr 1
  rw [phaseTimes, phaseTimes, if_pos rfl, if_pos rfl, (hnoted .build).startTime_eq,
    (hnoted .build).endTime_eq, hopen, List.flatMap_append, List.flatMap_singleton, hunit,
    List.flatMap_congr hunits, Option.toList_none, List.append_nil, List.append_nil,
    List.append_assoc]

/-- Phases that have not started add no times. -/
theorem timeline_eq (hp : p.WellTimed) (h : p.Through k) (hattempted : k ≤ 2 → attempted = []) :
    p.timeline attempted = p.startTime :: p.timesUpTo attempted k := by
  have hrest : (Phase.all.drop k).flatMap (p.phaseTimes attempted) = [] := by
    refine List.flatMap_eq_nil_iff.mpr fun q hq => ?_
    have hk := Phase.mem_drop_iff.mp hq
    refine phaseTimes_eq_nil (hp.phases q) (h.waiting q hk) ?_
    rintro rfl
    exact hattempted hk
  have hsplit : Phase.all.flatMap (p.phaseTimes attempted) =
      (Phase.all.take k).flatMap (p.phaseTimes attempted) ++
        (Phase.all.drop k).flatMap (p.phaseTimes attempted) := by
    rw [← List.flatMap_append, List.take_append_drop]
  rw [timeline, hsplit, hrest, List.append_nil, timesUpTo]

/-! ## Times that are kept -/

/-- All units are among some. -/
def Covered (units : List String) (p : Progress) : Prop :=
  ∀ key, key ∉ units → p.units.get? key = none

/-- Once the publish phase has started all units have both of their times. -/
def Settled (p : Progress) : Prop :=
  (p.phases.get .publish).state ≠ .notStarted →
    ∀ key u, p.units.get? key = some u → u.Timed

/-- The units that have both of their times keep them. -/
def KeepsTimes (p p' : Progress) : Prop :=
  ∀ key u, p.units.get? key = some u → u.Timed →
    ∃ u', p'.units.get? key = some u' ∧ u'.startTime = u.startTime ∧ u'.endTime = u.endTime

theorem KeepsTimes.refl (p : Progress) : p.KeepsTimes p := fun _ u hu _ => ⟨u, hu, rfl, rfl⟩

theorem Onward.keepsTimes (h : p.Onward p') : p.KeepsTimes p' := by
  intro key u hu htimed
  obtain ⟨u', hu', hto⟩ := h.units key u hu
  exact ⟨u', hu', htimed.kept hto⟩

theorem settled_of_waiting (h : (p.phases.get .publish).state = .notStarted) : p.Settled :=
  fun hstarted => absurd h hstarted

theorem settled_of_covered (h : p.Covered attempted) (htimed : p.AllTimed attempted) :
    p.Settled := by
  intro _ key u hu
  by_cases hkey : key ∈ attempted
  · obtain ⟨v, hv, hends⟩ := htimed key hkey
    obtain rfl := Option.some.inj (hv.symm.trans hu)
    exact hends
  · rw [h key hkey] at hu
    exact nomatch hu

/-- What is done to a phase that has started does not start the publish phase. -/
theorem Settled.modifyPhase (h : p.Settled) (hq : (p.phases.get q).state ≠ .notStarted) :
    (p.modifyPhase q f).Settled := by
  intro hstarted key u hu
  refine h ?_ key u hu
  by_cases hpublish : Phase.publish = q
  · rw [hpublish]
    exact hq
  · rw [get_modifyPhase_of_ne hpublish] at hstarted
    exact hstarted

/-! ## One unit at a time -/

/-- Apart from notes only the record of one unit was changed. -/
structure Touched (unit : String) (P : UnitRecord → Prop) (p p' : Progress) : Prop where
  noted : ∀ q, (p.phases.get q).Noted (p'.phases.get q)
  others : ∀ key, key ≠ unit → p'.units.get? key = p.units.get? key
  record : ∃ u, p'.units.get? unit = some u ∧ P u

theorem touched_self {u : UnitRecord} (hu : p.units.get? unit = some u) (h : P u) :
    Touched unit P p p :=
  ⟨fun _ => .refl _, fun _ _ => rfl, u, hu, h⟩

theorem Touched.note (h : Touched unit P p p') (hf : ∀ r : PhaseRecord, r.Noted (f r)) :
    Touched unit P p (p'.modifyPhase q f) where
  noted r := by
    rw [phases_modifyPhase, PhaseRecords.get_modify]
    split
    · exact (h.noted r).trans (hf _)
    · exact h.noted r
  others := h.others
  record := h.record

theorem Touched.modifyUnit (h : Touched unit P p p') (hg : ∀ u, P u → P' (g u)) :
    Touched unit P' p (p'.modifyUnit unit g) where
  noted := h.noted
  others key hkey := (get?_modifyUnit_of_ne hkey).trans (h.others key hkey)
  record := by
    obtain ⟨u, hu, hP⟩ := h.record
    exact ⟨g u, get?_modifyUnit_self hu, hg u hP⟩

end Progress
end ProtoBuild
