import ProtoBuild.Proofs.Pipeline.Accounts
import ProtoBuild.Proofs.Pipeline.Shown
import ProtoBuild.Proofs.Pipeline.Unitwise
import ProtoBuild.Proofs.Progress.Times

/-!
# Times that are recorded as they are read

Nothing is known of the single times of a build, only that the clock has given them one after
another.  So it is shown that they are recorded in the order in which they were read: the list of
the recorded times is a sublist of that of all readings (`Clocked.sublist`).  Every change either
leaves the list alone or adds to its end what was just read, and not all that was read is recorded.

`Clocked` says this up to some phase, with what has to be known of the units that were attempted.
Three situations are told apart: a build rests between two phases (`Resting`), it is busy with a
phase in which no units are built (`Busy`), or it builds units (`Building`).  For each there is one
lemma for each thing that can happen in it.
-/

namespace ProtoBuild
namespace Pipeline

open Work Progress

variable {run more : Run} {p p' start : Progress} {attempted rest units : List String} {q : Phase}
  {k j : Nat} {f : PhaseRecord → PhaseRecord} {time : UInt64}

/-! ## Readings of the clock -/

/-- The time that was read. -/
def timeOf? : Exchange interface → Option UInt64
  | ⟨.now, time⟩ => some time
  | _ => none

/-- The times that were read in a run. -/
def times (run : Run) : List UInt64 := run.filterMap timeOf?

@[simp] theorem times_append : times (run ++ more) = times run ++ times more :=
  List.filterMap_append

/-- A unit was given to the build tool and came back, and the clock was read directly before and
after. -/
def Measured (unit : String) (started ended : UInt64) (run : Run) : Prop :=
  ∃ before root args answer after,
    run = before ++ timed started :: called (.build root args (Path.pattern unit)) answer ::
      timed ended :: after

theorem Measured.append {unit : String} {started ended : UInt64}
    (h : Measured unit started ended run) (more : Run) :
    Measured unit started ended (run ++ more) := by
  obtain ⟨before, root, args, answer, after, rfl⟩ := h
  exact ⟨before, root, args, answer, after ++ more, by simp⟩

/-- The times of some units are those that were read when they were built. -/
def AllMeasured (attempted : List String) (run : Run) (p : Progress) : Prop :=
  ∀ unit ∈ attempted, ∃ u started ended, p.units.get? unit = some u ∧
    u.Spans started ended ∧ Measured unit started ended run

theorem AllMeasured.allTimed (h : AllMeasured attempted run p) : p.AllTimed attempted := by
  intro unit hunit
  obtain ⟨u, started, ended, hu, hspans, -⟩ := h unit hunit
  exact ⟨u, hu, hspans.timed⟩

theorem AllMeasured.kept (h : AllMeasured attempted run p) (hkept : p.KeepsTimes p') :
    AllMeasured attempted run p' := by
  intro unit hunit
  obtain ⟨u, started, ended, hu, hspans, hmeasured⟩ := h unit hunit
  obtain ⟨u', hu', hstart, hend⟩ := hkept unit u hu hspans.timed
  exact ⟨u', started, ended, hu',
    ⟨hstart.trans hspans.startTime_eq, hend.trans hspans.endTime_eq⟩, hmeasured⟩

theorem AllMeasured.append (h : AllMeasured attempted run p) (more : Run) :
    AllMeasured attempted (run ++ more) p := by
  intro unit hunit
  obtain ⟨u, started, ended, hu, hspans, hmeasured⟩ := h unit hunit
  exact ⟨u, started, ended, hu, hspans, hmeasured.append more⟩

/-! ## What is recorded -/

/-- The times up to some phase were recorded as they were read, and so were those of the units that
were attempted. -/
structure Clocked (attempted : List String) (k : Nat) (run : Run) (p : Progress) : Prop where
  wellTimed : p.WellTimed
  settled : p.Settled
  shown_settled : ∀ s ∈ shown run, s.Settled
  builds_eq : builds run = attempted.map Path.pattern
  nodup : attempted.Nodup
  measured : AllMeasured attempted run p
  sublist : (p.timesUpTo attempted k).Sublist (times run)

/-- The first phases are over, and their times are recorded. -/
structure ClockedThrough (attempted : List String) (k : Nat) (run : Run) (p : Progress) : Prop
    extends Clocked attempted k run p where
  through : p.Through k
  early : k ≤ 2 → attempted = []

/-- Between two phases all units were attempted, if there are any. -/
structure Resting (attempted : List String) (k : Nat) (run : Run) (p : Progress) : Prop
    extends ClockedThrough attempted k run p where
  covered : p.Covered attempted

/-- A phase is running, and its start is recorded. -/
structure Active (attempted : List String) (q : Phase) (run : Run) (p : Progress) : Prop
    extends Clocked attempted (q.index + 1) run p where
  within : p.Within q
  running : (p.phases.get q).state = .running

/-- A phase is running in which no units are built. -/
structure Busy (attempted : List String) (q : Phase) (run : Run) (p : Progress) : Prop
    extends Active attempted q run p where
  early : q.index ≤ 2 → attempted = []
  covered : p.Covered attempted

/-- Some units were attempted, and the others wait. -/
structure Building (attempted rest : List String) (run : Run) (p : Progress) : Prop
    extends Active attempted .build run p where
  nodup_all : (attempted ++ rest).Nodup
  covered : p.Covered (attempted ++ rest)
  pending : ∀ unit ∈ rest, ∃ u, p.units.get? unit = some u ∧ u.status = .pending

/-! ## What is read and recorded -/

theorem Clocked.timed (h : Clocked attempted k run p) : p.AllTimed attempted := h.measured.allTimed

/-- The last times that were read are recorded, and no unit is given to the build tool. -/
theorem Clocked.extend (h : Clocked attempted k run p) {read : List UInt64}
    (hwell : p'.WellTimed) (hsettled : p'.Settled) (hkept : p.KeepsTimes p')
    (hbuilds : builds more = []) (hshown : ∀ s ∈ shown more, s = p')
    (htimes : p'.timesUpTo attempted j = p.timesUpTo attempted k ++ read)
    (hread : read.Sublist (times more)) : Clocked attempted j (run ++ more) p' where
  wellTimed := hwell
  settled := hsettled
  shown_settled s hs := by
    rw [shown_append, List.mem_append] at hs
    rcases hs with hs | hs
    · exact h.shown_settled s hs
    · rw [hshown s hs]
      exact hsettled
  builds_eq := by rw [builds_append, h.builds_eq, hbuilds, List.append_nil]
  nodup := h.nodup
  measured := (h.measured.kept hkept).append more
  sublist := by
    rw [htimes, times_append]
    exact h.sublist.append hread

/-- The progress is shown, or the clock is read and the time is not recorded. -/
theorem Clocked.silent (h : Clocked attempted k run p) (hbuilds : builds more = [])
    (hshown : ∀ s ∈ shown more, s = p) : Clocked attempted k (run ++ more) p :=
  h.extend h.wellTimed h.settled (.refl p) hbuilds hshown (List.append_nil _).symm
    (List.nil_sublist _)

theorem Clocked.advance (h : Clocked attempted k run p) (stage : Stage) :
    Clocked attempted k run (p.advance stage).1 := by
  obtain ⟨s, heq⟩ := p.advance_eq stage
  rw [heq]
  exact ⟨⟨h.wellTimed.phases, h.wellTimed.units⟩, h.settled, h.shown_settled, h.builds_eq,
    h.nodup, h.measured, h.sublist⟩

/-- What is done within a phase records no times but those of units, and keeps these. -/
theorem Clocked.working (h : Clocked attempted k run p) {g : Progress → Progress} (hg : Working g)
    (hsettled : (g p).Settled) : Clocked attempted k run (g p) := by
  obtain ⟨hwell, hto⟩ := (hg.grows p).onward h.wellTimed
  -- a unit that was attempted has both of its times, so no later work on it changes them
  obtain ⟨-, hunits⟩ := h.timed.onward hto.units
  refine
    { h with
      wellTimed := hwell
      settled := hsettled
      measured := h.measured.kept hto.keepsTimes
      sublist := ?_ }
  rw [timesUpTo_congr (fun q _ => ⟨(hg.noted p q).startTime_eq, (hg.noted p q).endTime_eq⟩) hunits]
  exact h.sublist

/-! ## Between phases -/

theorem ClockedThrough.silent (h : ClockedThrough attempted k run p) (hbuilds : builds more = [])
    (hshown : ∀ s ∈ shown more, s = p) : ClockedThrough attempted k (run ++ more) p :=
  ⟨h.toClocked.silent hbuilds hshown, h.through, h.early⟩

theorem ClockedThrough.advance (h : ClockedThrough attempted k run p) (stage : Stage) :
    ClockedThrough attempted k run (p.advance stage).1 :=
  ⟨h.toClocked.advance stage, h.through.advance, h.early⟩

theorem Resting.silent (h : Resting attempted k run p) (hbuilds : builds more = [])
    (hshown : ∀ s ∈ shown more, s = p) : Resting attempted k (run ++ more) p :=
  ⟨h.toClockedThrough.silent hbuilds hshown, h.covered⟩

theorem Resting.advance (h : Resting attempted k run p) (stage : Stage) :
    Resting attempted k run (p.advance stage).1 where
  toClockedThrough := h.toClockedThrough.advance stage
  covered := by
    rw [Covered, units_advance]
    exact h.covered

/-- A phase is entered, and its start is recorded. -/
theorem Resting.enter (h : Resting attempted q.index run p) (time : UInt64) :
    Busy attempted q
      (run ++ [looked false, timed time, told (.updated (enteredInto q time p)),
        told (.phaseStarted q)])
      (enteredInto q time p) := by
  have hadvanced := h.advance q.stage
  have hwell : (enteredInto q time p).WellTimed :=
    hadvanced.wellTimed.modifyPhase fun r hr => ((r.leads_start time).onward hr).1
  have hwaiting := hadvanced.through.waiting q (Nat.le_refl _)
  have hearly : q.index ≤ 2 → attempted = [] := h.early
  refine
    { toClocked := hadvanced.toClocked.extend hwell
        (settled_of_covered hadvanced.covered hadvanced.timed) (.refl (p.advance q.stage).1) rfl ?_
        (timesUpTo_entered (hadvanced.wellTimed.phases q) hwaiting ?_) (List.Sublist.refl _)
      within := h.through.enter time
      running := h.through.running_enter time
      early := hearly
      covered := hadvanced.covered }
  · exact fun s hs => List.mem_singleton.mp hs
  · rintro rfl
    exact hearly (Nat.le_refl 2)

/-! ## Within phases -/

theorem Active.silent (h : Active attempted q run p) (hbuilds : builds more = [])
    (hshown : ∀ s ∈ shown more, s = p) : Active attempted q (run ++ more) p :=
  ⟨h.toClocked.silent hbuilds hshown, h.within, h.running⟩

theorem Active.working (h : Active attempted q run p) {g : Progress → Progress} (hg : Working g)
    (hsettled : (g p).Settled) : Active attempted q run (g p) where
  toClocked := h.toClocked.working hg hsettled
  within := h.within.noted (hg.noted p)
  running := (hg.noted p q).state_eq.trans h.running

/-- A phase that is running comes to its end, which is recorded. -/
theorem Active.close (h : Active attempted q run p) (hearly : q.index < 2 → attempted = [])
    (hf : ∀ r : PhaseRecord, r.Ends time (f r)) (hbuilds : builds more = [])
    (hshown : ∀ s ∈ shown more, s = p.modifyPhase q f) (hread : times more = [time]) :
    ClockedThrough attempted (q.index + 1) (run ++ more) (p.modifyPhase q f) := by
  have hrunning : (p.phases.get q).state ≠ .notStarted := by
    rw [h.running]
    exact PhaseState.noConfusion
  have hopen : (p.phases.get q).endTime = none :=
    (h.wellTimed.phases q).no_end (PhaseRecord.isFinal_of_state h.running)
  obtain ⟨hstart, hend⟩ := (hf _).times (h.wellTimed.phases q) h.running
  refine ⟨h.toClocked.extend ?_ (h.settled.modifyPhase hrunning) (.refl p) hbuilds hshown
    (timesUpTo_ended hopen hstart hend) ?_, h.within.finish fun r => (hf r).isFinal,
    fun hk => hearly hk⟩
  · exact h.wellTimed.modifyPhase fun r hr => (hf r).wellTimed hr
  · rw [hread]

theorem Busy.silent (h : Busy attempted q run p) (hbuilds : builds more = [])
    (hshown : ∀ s ∈ shown more, s = p) : Busy attempted q (run ++ more) p :=
  ⟨h.toActive.silent hbuilds hshown, h.early, h.covered⟩

theorem Busy.working (h : Busy attempted q run p) {g : Progress → Progress} (hg : Working g) :
    Busy attempted q run (g p) := by
  have hcovered : (g p).Covered attempted := fun key hkey => hg.no_new p key (h.covered key hkey)
  obtain ⟨-, hto⟩ := (hg.grows p).onward h.wellTimed
  exact ⟨h.toActive.working hg
    (settled_of_covered hcovered (h.timed.onward hto.units).1), h.early, hcovered⟩

theorem Busy.close (h : Busy attempted q run p) (hf : ∀ r : PhaseRecord, r.Ends time (f r)) :
    Resting attempted (q.index + 1) (run ++ [timed time]) (p.modifyPhase q f) :=
  ⟨h.toActive.close (fun hq => h.early (Nat.le_of_lt hq)) hf rfl (fun _ hs => nomatch hs) rfl,
    h.covered⟩

/-! ## Unit by unit -/

theorem Building.silent (h : Building attempted rest run p) (hbuilds : builds more = [])
    (hshown : ∀ s ∈ shown more, s = p) : Building attempted rest (run ++ more) p :=
  ⟨h.toActive.silent hbuilds hshown, h.nodup_all, h.covered, h.pending⟩

/-- Notes change nothing that is known of the units. -/
theorem Building.annotate (h : Building attempted rest run p) {g : Progress → Progress}
    (hg : Annotates g) : Building attempted rest run (g p) where
  toActive := h.toActive.working hg.working
    (settled_of_waiting
      ((hg.noted p .publish).state_eq.trans (h.within.waiting .publish (by decide))))
  nodup_all := h.nodup_all
  covered := by
    rw [Covered, hg.units_eq]
    exact h.covered
  pending := by
    rw [hg.units_eq]
    exact h.pending

/-- Of the units that are found all wait. -/
theorem Busy.begin (h : Busy attempted .build run p) (hunits : units.Nodup) (version : String) :
    Building [] units (run ++ [told (.updated (p.withUnits units version))])
      (p.withUnits units version) := by
  obtain rfl := h.early (Nat.le_refl 2)
  have hget : ∀ key, (p.withUnits units version).units.get? key =
      if key ∈ units then some { target := key, version := version } else none := by
    intro key
    rw [Progress.withUnits, ← h.covered key List.not_mem_nil]
    exact StringMap.get?_foldl_insert_eq units p.units key
  have hwell : (p.withUnits units version).WellTimed := by
    refine ⟨h.wellTimed.phases, fun key u hu => ?_⟩
    rw [hget key] at hu
    split at hu
    · obtain rfl := Option.some.inj hu
      exact UnitRecord.wellTimed_new key version
    · exact nomatch hu
  have hkept : p.KeepsTimes (p.withUnits units version) := by
    intro key u hu _
    rw [h.covered key List.not_mem_nil] at hu
    exact nomatch hu
  refine
    { toClocked := h.toClocked.extend hwell
        (settled_of_waiting (h.within.waiting .publish (by decide))) hkept rfl
        (fun s hs => List.mem_singleton.mp hs) (List.append_nil _).symm (List.nil_sublist _)
      within := ⟨h.within.ended, h.within.waiting⟩
      running := h.running
      nodup_all := hunits
      covered := fun key hkey => (hget key).trans (if_neg hkey)
      pending := fun unit hunit => ⟨_, (hget unit).trans (if_pos hunit), rfl⟩ }

/-- The next unit was not attempted before and is named once. -/
theorem Building.notMem {unit : String} (h : Building attempted (unit :: rest) run p) :
    unit ∉ attempted ∧ unit ∉ rest := by
  obtain ⟨-, hrest, hdisjoint⟩ := List.nodup_append.mp h.nodup_all
  exact ⟨fun hunit => hdisjoint unit hunit unit List.mem_cons_self rfl,
    (List.nodup_cons.mp hrest).1⟩

/-- The times of a unit that was attempted stand behind those that were recorded before. -/
theorem Building.sublist_attempt {unit : String} {started ended : UInt64}
    (h : Building attempted (unit :: rest) run p)
    (htouched : Touched unit (UnitRecord.Spans started ended) p p')
    (htimes : times more = [started, ended]) :
    (p'.timesUpTo (attempted ++ [unit]) (Phase.build.index + 1)).Sublist (times (run ++ more)) := by
  obtain ⟨v, hv, hspans⟩ := htouched.record
  have hopen : (p.phases.get .build).endTime = none :=
    (h.wellTimed.phases .build).no_end (PhaseRecord.isFinal_of_state h.running)
  have hothers : ∀ key ∈ attempted, p'.unitTimes key = p.unitTimes key := by
    intro key hkey
    have hne : key ≠ unit := fun heq => h.notMem.1 (heq ▸ hkey)
    rw [unitTimes, htouched.others key hne, unitTimes]
  have hunit : p'.unitTimes unit = [started, ended] := by
    rw [unitTimes, hv, Option.map_some, hspans.times_eq, Option.getD_some]
  rw [timesUpTo_attempted hopen htouched.noted hothers hunit, times_append, htimes]
  exact h.sublist.append (List.Sublist.refl _)

/-- The next unit was attempted, and both of its times are recorded. -/
theorem Building.attempt {unit : String} {started ended : UInt64} {root : String}
    {args : List String} {answer : (Call.build root args (Path.pattern unit)).Answer}
    (h : Building attempted (unit :: rest) run p)
    (htouched : Touched unit (UnitRecord.Spans started ended) p p')
    (hwell : p'.WellTimed) :
    Building (attempted ++ [unit]) rest
      (run ++ [timed started, called (.build root args (Path.pattern unit)) answer, timed ended])
      p' := by
  obtain ⟨hunit, hrest⟩ := h.notMem
  have hwithin := h.within.noted htouched.noted
  have hnodup : ((attempted ++ [unit]) ++ rest).Nodup := by
    rw [List.append_assoc]
    exact h.nodup_all
  refine
    { wellTimed := hwell
      settled := settled_of_waiting (hwithin.waiting .publish (by decide))
      shown_settled := ?_
      builds_eq := ?_
      nodup := (List.nodup_append.mp hnodup).1
      measured := fun key hkey => ?_
      sublist := h.sublist_attempt htouched rfl
      within := hwithin
      running := (htouched.noted .build).state_eq.trans h.running
      nodup_all := hnodup
      covered := fun key hkey => ?_
      pending := fun key hkey => ?_ }
  · rw [shown_append]
    exact fun s hs => h.shown_settled s ((List.mem_append.mp hs).resolve_right fun hs => nomatch hs)
  · rw [builds_append, h.builds_eq, List.map_append]
    rfl
  · rcases List.mem_append.mp hkey with hkey | hkey
    · rw [htouched.others key fun heq => hunit (heq ▸ hkey)]
      exact h.measured.append _ key hkey
    · obtain rfl := List.mem_singleton.mp hkey
      obtain ⟨v, hv, hspans⟩ := htouched.record
      exact ⟨v, started, ended, hv, hspans, run, root, args, answer, [], rfl⟩
  · rw [List.append_assoc] at hkey
    have hne : key ≠ unit := by
      rintro rfl
      exact hkey (List.mem_append_right _ List.mem_cons_self)
    exact (htouched.others key hne).trans (h.covered key hkey)
  · rw [htouched.others key fun heq => hrest (heq ▸ hkey)]
    exact h.pending key (List.mem_cons_of_mem unit hkey)

/-- A unit that waits is given to the build tool and comes back.  Whatever the answer is, its times
are those that were read directly before and after. -/
theorem ensures_buildUnit_touched (lake : Workspace) (args : List String) {unit : String}
    {u : UnitRecord} (hu : p.units.get? unit = some u) (hwell : u.WellTimed)
    (hpending : u.status = .pending) :
    Ensures (buildUnit lake args unit)
      (fun _ run' p' => ∃ started ended answer,
        run' = run ++ [timed started, called (.build lake.root args (Path.pattern unit)) answer,
          timed ended] ∧
        Touched unit (UnitRecord.Spans started ended) p p')
      (fun _ _ _ => True) run p := by
  simp only [buildUnit, ensures_bind, ensures_modifyPhase, ensures_now, ensures_modifyUnit]
  intro started
  refine (ensures_call _).mpr fun answer ended => ?_
  have hnamed : Touched unit (UnitRecord.At .pending none none) p (p.modifyPhase .build fun r =>
      (r.setSubPhase ("Building " ++ unit)).addLog ("Building: " ++ unit)) :=
    (touched_self hu (hwell.at_pending hpending)).note fun r =>
      (r.noted_setSubPhase _).trans (PhaseRecord.noted_addLog _ _)
  -- the start is recorded before the answer is looked at; then each answer leads to an end
  have hgiven := hnamed.modifyUnit fun u hu => hu.building started
  have hlogged := fun text => hgiven.modifyUnit (g := (·.addLog text)) fun u hu => hu.addLog text
  have hrun : ∀ x y z : Exchange interface, run ++ [x] ++ [y] ++ [z] = run ++ [x, y, z] := by simp
  rw [hrun]
  cases answer with
  | error e =>
    dsimp only
    split
    · simp only [failUnit, ensures_bind, ensures_modifyUnit, ensures_pure]
      exact ⟨started, ended, .error e, rfl,
        (hlogged _).modifyUnit fun u hu => (hu.fail _ ended).spans⟩
    · simp only [failUnit, ensures_bind, ensures_modifyUnit, ensures_pure]
      exact ⟨started, ended, .error e, rfl, hgiven.modifyUnit fun u hu => (hu.fail _ ended).spans⟩
  | ok output =>
    simp only [ensures_bind, ensures_modifyUnit]
    split
    · have hbuilt := (hlogged (output.tail keptLines)).modifyUnit fun u hu => (hu.built ended).spans
      simp only [ensures_bind, ensures_modifyUnit]
      split
      · simp only [ensures_bind, ensures_modifyPhase, ensures_pure]
        exact ⟨started, ended, .ok output, rfl,
          (hbuilt.note fun r => r.noted_addLog _).note fun r => r.noted_addLog _⟩
      · simp only [ensures_bind, ensures_modifyPhase, ensures_pure]
        exact ⟨started, ended, .ok output, rfl, hbuilt.note fun r => r.noted_addLog _⟩
    · simp only [failUnit, ensures_bind, ensures_modifyUnit, ensures_pure]
      exact ⟨started, ended, .ok output, rfl,
        (hlogged _).modifyUnit fun u hu => (hu.fail _ ended).spans⟩

/-- A unit is attempted while the others wait. -/
theorem Building.ensures_buildUnit {unit : String} (h : Building attempted (unit :: rest) run p)
    (lake : Workspace) (args : List String) :
    Ensures (buildUnit lake args unit) (fun _ => Building (attempted ++ [unit]) rest)
      (fun _ _ _ => True) run p := by
  obtain ⟨u, hu, hpending⟩ := h.pending unit List.mem_cons_self
  have hkeeps : Keeps Working (Request.Within 5 5) fun _ p => p.WellTimed :=
    ⟨fun f hf hp => ((hf.grows _).onward hp).1, fun _ _ _ hp => hp, fun hp => hp⟩
  refine ((ensures_buildUnit_touched lake args hu (h.wellTimed.units unit u hu) hpending).and
    ((made_buildUnit lake args unit).ensures hkeeps h.wellTimed)).mono ?_ fun _ _ _ _ => trivial
  rintro _ _ p' ⟨⟨started, ended, answer, rfl, htouched⟩, hwell⟩
  exact h.attempt htouched hwell

/-- Whatever has become of the units that wait, the build phase can end. -/
theorem Building.close (h : Building attempted rest run p)
    (hf : ∀ r : PhaseRecord, r.Ends time (f r)) (hbuilds : builds more = [])
    (hshown : ∀ s ∈ shown more, s = p.modifyPhase .build f) (hread : times more = [time]) :
    ClockedThrough attempted (Phase.build.index + 1) (run ++ more) (p.modifyPhase .build f) :=
  h.toActive.close (fun hlt => absurd hlt (Nat.lt_irrefl _)) hf hbuilds hshown hread

/-- The units that wait are skipped, and the build phase with them. -/
theorem Building.skip (h : Building attempted rest run p) (units : List String) (time : UInt64) :
    ClockedThrough attempted (Phase.build.index + 1)
      (run ++ [looked true, timed time, told (.updated (p.skipping units time))])
      (p.skipping units time) := by
  -- to skip units is work on units as well, and those that were attempted are not touched by it
  have hunits : ∀ (units : List String) (p : Progress), Active attempted .build run p →
      Active attempted .build run (units.foldl
        (fun p unit => p.modifyUnit unit fun u => (u.move .skipped time).1) p) := by
    intro units
    induction units with
    | nil => exact fun _ hp => hp
    | cons unit rest ih =>
      intro p hp
      refine ih _ (hp.working (working_modifyUnit unit fun u => u.leads_move .skipped time) ?_)
      exact settled_of_waiting (hp.within.waiting .publish (by decide))
  exact (hunits units p h.toActive).close (fun hlt => absurd hlt (Nat.lt_irrefl _))
    (fun r => r.ends_skip time _) rfl (fun _ hs => List.mem_singleton.mp hs) rfl

end Pipeline
end ProtoBuild
