import ProtoBuild.Proofs.Pipeline.Unitwise

/-!
# What the attempts of a build phase leave

An `Attempt` is a unit with the answer of the build tool, and the unit counts as built or as failed
by this answer alone.  While the units are built one after another, those already attempted have
the status of their attempt and the rest waits (`Amid`); both lists together are always the units
that were found.

A build phase ends in one of three ways, and its result tells in which (`BuildEnding`): all units
were attempted, or one has failed and the build does not go on, or the build was asked to stop
before one of them.  Each of them can be reached from the middle of the phase (`Amid.completed`,
`Amid.failed`, `Amid.stopped`).

## What is known of other units

Units that a progress already has and that are not found again are left as they were
(`Progress.AfterAttempts.others`).  Those that are found again begin anew.
-/

namespace ProtoBuild

open Pipeline

/-! ## Attempts -/

/-- An attempt to build a unit, with the answer of the build tool. -/
structure Attempt where
  unit : String
  answer : Except ToolError ToolOutput

namespace Attempt

/-- Whether the unit counts as built. -/
def usable (a : Attempt) : Bool :=
  match a.answer with
  | .ok output => (BuildOutcome.classify output.exitCode output.text).isUsable
  | .error _ => false

/-- What becomes of the unit. -/
def status (a : Attempt) : UnitStatus := if a.usable then .built else .failed

/-- The call that an attempt is, with its answer. -/
def call (lake : Workspace) (args : List String) (a : Attempt) : Answered :=
  ⟨.build lake.root args (Path.pattern a.unit), a.answer⟩

end Attempt

namespace Progress

variable {p q q' : Progress} {unit : String} {s s' : UnitStatus}
  {f : PhaseRecord → PhaseRecord} {g : UnitRecord → UnitRecord}

/-! ## While the units are found -/

/-- Only notes were written into the record of the build phase. -/
structure Searched (p q : Progress) : Prop where
  branch_eq : q.branch = p.branch
  units_eq : q.units = p.units
  noted : (p.phases.get .build).Noted (q.phases.get .build)

theorem Searched.refl (p : Progress) : p.Searched p := ⟨rfl, rfl, .refl _⟩

theorem Searched.note (h : p.Searched q) (hf : ∀ r : PhaseRecord, r.Noted (f r)) :
    p.Searched (q.modifyPhase .build f) where
  branch_eq := h.branch_eq
  units_eq := h.units_eq
  noted := by
    rw [get_modifyPhase_self]
    exact h.noted.trans (hf _)

/-! ## One unit -/

/-- The status of a unit, if it is there. -/
def statusOf? (p : Progress) (unit : String) : Option UnitStatus :=
  (p.units.get? unit).map UnitRecord.status

/-- From one progress to another, a unit has come to a status, the others have not changed, and
only notes were written into the record of the build phase. -/
structure Puts (unit : String) (s : UnitStatus) (p q : Progress) : Prop where
  status_eq : q.statusOf? unit = some s
  others : ∀ key, key ≠ unit → q.units.get? key = p.units.get? key
  noted : (p.phases.get .build).Noted (q.phases.get .build)

theorem puts_self (h : p.statusOf? unit = some s) : p.Puts unit s p where
  status_eq := h
  others _ _ := rfl
  noted := .refl _

theorem Puts.note (h : p.Puts unit s q) (hf : ∀ r : PhaseRecord, r.Noted (f r)) :
    p.Puts unit s (q.modifyPhase .build f) where
  status_eq := h.status_eq
  others := h.others
  noted := by
    rw [get_modifyPhase_self]
    exact h.noted.trans (hf _)

theorem Puts.modifyUnit (h : p.Puts unit s q)
    (hg : ∀ u : UnitRecord, u.status = s → (g u).status = s') :
    p.Puts unit s' (q.modifyUnit unit g) where
  status_eq := by
    obtain ⟨u, hu, hstatus⟩ := Option.map_eq_some_iff.mp h.status_eq
    rw [statusOf?, get?_modifyUnit_self hu, Option.map_some, hg u hstatus]
  others key hkey := by
    rw [get?_modifyUnit_of_ne hkey]
    exact h.others key hkey
  noted := h.noted

/-! ## Units that were attempted, and the rest -/

/-- Some units were attempted and the rest has one status; all other units are as they were. -/
structure AfterAttempts (attempts : List Attempt) (rest : List String) (s : UnitStatus)
    (p q : Progress) : Prop where
  attempted : ∀ a ∈ attempts, q.statusOf? a.unit = some a.status
  left : ∀ unit ∈ rest, q.statusOf? unit = some s
  others : ∀ key, key ∉ attempts.map Attempt.unit → key ∉ rest →
    q.units.get? key = p.units.get? key

variable {attempts : List Attempt} {rest units : List String} {a : Attempt}

theorem AfterAttempts.modifyPhase (h : p.AfterAttempts attempts rest s q)
    (f : PhaseRecord → PhaseRecord) :
    p.AfterAttempts attempts rest s (q.modifyPhase .build f) :=
  ⟨h.attempted, h.left, h.others⟩

/-- The next unit is attempted. -/
theorem AfterAttempts.next (h : p.AfterAttempts attempts (a.unit :: rest) s q)
    (hnodup : (attempts.map Attempt.unit ++ a.unit :: rest).Nodup)
    (hputs : q.Puts a.unit a.status q') : p.AfterAttempts (attempts ++ [a]) rest s q' where
  attempted b hb := by
    rcases List.mem_append.mp hb with hb | hb
    · have hne : b.unit ≠ a.unit := fun heq =>
        (List.nodup_append.mp hnodup).2.2 b.unit (List.mem_map.mpr ⟨b, hb, rfl⟩) a.unit
          List.mem_cons_self heq
      rw [statusOf?, hputs.others b.unit hne]
      exact h.attempted b hb
    · obtain rfl := List.mem_singleton.mp hb
      exact hputs.status_eq
  left unit hunit := by
    have hnotin : a.unit ∉ rest := (List.nodup_cons.mp (List.nodup_append.mp hnodup).2.1).1
    have hne : unit ≠ a.unit := fun heq => hnotin (heq ▸ hunit)
    rw [statusOf?, hputs.others unit hne]
    exact h.left unit (List.mem_cons_of_mem a.unit hunit)
  others key hkey hrest := by
    simp only [List.map_append, List.map_cons, List.map_nil, List.mem_append, List.mem_singleton,
      not_or] at hkey
    rw [hputs.others key hkey.2]
    refine h.others key hkey.1 fun hmem => ?_
    rcases List.mem_cons.mp hmem with heq | hmem
    · exact hkey.2 heq
    · exact hrest hmem

theorem get?_foldl_modifyUnit (hnodup : units.Nodup) (g : UnitRecord → UnitRecord) (p : Progress)
    (key : String) :
    (units.foldl (fun p unit => p.modifyUnit unit g) p).units.get? key =
      (p.units.get? key).map fun u => if key ∈ units then g u else u := by
  induction units generalizing p with
  | nil => simp
  | cons unit rest ih =>
    obtain ⟨hunit, hrest⟩ := List.nodup_cons.mp hnodup
    rw [List.foldl_cons, ih hrest]
    by_cases hkey : key = unit
    · subst hkey
      rw [Progress.modifyUnit, StringMap.get?_update, Option.map_map]
      congr 1
      funext u
      simp [hunit]
    · rw [get?_modifyUnit_of_ne hkey]
      simp only [List.mem_cons, hkey, false_or]

theorem phases_foldl_modifyUnit (g : UnitRecord → UnitRecord) (units : List String) (p : Progress) :
    (units.foldl (fun p unit => p.modifyUnit unit g) p).phases = p.phases := by
  induction units generalizing p with
  | nil => rfl
  | cons unit rest ih => exact ih (p.modifyUnit unit g)

/-- The units that wait are skipped. -/
theorem AfterAttempts.skipping (h : p.AfterAttempts attempts rest .pending q)
    (hnodup : (attempts.map Attempt.unit ++ rest).Nodup) (time : UInt64) :
    p.AfterAttempts attempts rest .skipped (q.skipping rest time) := by
  obtain ⟨-, hrest, hapart⟩ := List.nodup_append.mp hnodup
  have hget : ∀ key, (q.skipping rest time).units.get? key = (q.units.get? key).map fun u =>
      if key ∈ rest then (u.move .skipped time).1 else u :=
    get?_foldl_modifyUnit hrest _ q
  have hkept : ∀ key, key ∉ rest → (q.skipping rest time).units.get? key = q.units.get? key := by
    intro key hkey
    rw [hget]
    simp [hkey]
  refine ⟨fun b hb => ?_, fun unit hunit => ?_, fun key hkey hkeyRest => ?_⟩
  · have hnotin : b.unit ∉ rest := fun hmem =>
      hapart b.unit (List.mem_map.mpr ⟨b, hb, rfl⟩) b.unit hmem rfl
    rw [statusOf?, hkept b.unit hnotin]
    exact h.attempted b hb
  · obtain ⟨u, hu, hpending⟩ := Option.map_eq_some_iff.mp (h.left unit hunit)
    rw [statusOf?, hget, hu, Option.map_some, Option.map_some, if_pos hunit,
      UnitRecord.status_move, hpending]
    rfl
  · rw [hkept key hkeyRest]
    exact h.others key hkey hkeyRest

end Progress

/-! ## While the units are built -/

/-- In the middle of a build phase: some of the units were attempted, and the rest waits. -/
structure Amid (goOn : Bool) (units : List String) (attempts : List Attempt) (rest : List String)
    (p q : Progress) : Prop where
  units_eq : attempts.map Attempt.unit ++ rest = units
  usable : goOn = false → ∀ a ∈ attempts, a.usable = true
  after : p.AfterAttempts attempts rest .pending q
  unfinished : (q.phases.get .build).isFinal = false

variable {goOn : Bool} {units rest : List String} {attempts : List Attempt} {a : Attempt}
  {p q q' : Progress}

/-- No unit was attempted yet. -/
theorem Progress.Searched.amid (h : p.Searched q) (hopen : (p.phases.get .build).isFinal = false)
    (goOn : Bool) (units : List String) (version : String) :
    Amid goOn units [] units p (q.withUnits units version) where
  units_eq := rfl
  usable _ _ ha := absurd ha List.not_mem_nil
  after :=
    { attempted := fun _ ha => absurd ha List.not_mem_nil
      left := fun unit hunit => by
        rw [Progress.statusOf?, Progress.withUnits, StringMap.get?_foldl_insert_eq, if_pos hunit]
        rfl
      others := fun key _ hkey => by
        rw [Progress.withUnits, StringMap.get?_foldl_insert_eq, if_neg hkey, h.units_eq] }
  unfinished := h.noted.isFinal_eq.trans hopen

/-- When none is left, the units were attempted in their order. -/
theorem Amid.map_unit_eq (h : Amid goOn units attempts [] p q) :
    attempts.map Attempt.unit = units := by
  rw [← h.units_eq, List.append_nil]

/-- The next unit is attempted, and the build may go on. -/
theorem Amid.next (h : Amid goOn units attempts (a.unit :: rest) p q)
    (hnodup : units.Nodup) (hputs : q.Puts a.unit a.status q')
    (husable : goOn = false → a.usable = true) : Amid goOn units (attempts ++ [a]) rest p q' where
  units_eq := by
    rw [← h.units_eq]
    simp
  usable hgoOn b hb := by
    rcases List.mem_append.mp hb with hb | hb
    · exact h.usable hgoOn b hb
    · obtain rfl := List.mem_singleton.mp hb
      exact husable hgoOn
  after := h.after.next (h.units_eq ▸ hnodup) hputs
  unfinished := hputs.noted.isFinal_eq.trans h.unfinished

/-- How a build phase ends that has found its units: after all of them, with one that has failed,
or before some of them.  Its result tells which. -/
inductive BuildEnding (goOn : Bool) (units : List String) (run : Run) (p q : Progress) :
    List Attempt → Except PipelineError Unit → Prop where
  | completed {attempts : List Attempt} (units_eq : attempts.map Attempt.unit = units)
      (usable : goOn = false → ∀ a ∈ attempts, a.usable = true)
      (after : p.AfterAttempts attempts [] .pending q)
      (state_eq : (q.phases.get .build).state = .ofOutcomes (attempts.map Attempt.usable)) :
      BuildEnding goOn units run p q attempts (.ok ())
  | failed {earlier : List Attempt} {a : Attempt} {later : List String} {reason : String}
      (stops : goOn = false) (units_eq : earlier.map Attempt.unit ++ a.unit :: later = units)
      (usable : ∀ b ∈ earlier, b.usable = true) (unusable : a.usable = false)
      (after : p.AfterAttempts (earlier ++ [a]) later .pending q)
      (state_eq : (q.phases.get .build).state = .failed) :
      BuildEnding goOn units run p q (earlier ++ [a]) (.error (.unitFailed a.unit reason))
  | stopped {attempts : List Attempt} {unit : String} {later : List String}
      (tripped : looked true ∈ run)
      (units_eq : attempts.map Attempt.unit ++ unit :: later = units)
      (usable : goOn = false → ∀ a ∈ attempts, a.usable = true)
      (after : p.AfterAttempts attempts (unit :: later) .skipped q)
      (state_eq : (q.phases.get .build).state = .skipped) :
      BuildEnding goOn units run p q attempts (.error .cancelled)

section

variable {run : Run} {unit : String}

/-- The build is asked to stop before a unit. -/
theorem Amid.stopped (h : Amid goOn units attempts (unit :: rest) p q) (hnodup : units.Nodup)
    (htripped : looked true ∈ run) (time : UInt64) :
    BuildEnding goOn units run p (q.skipping (unit :: rest) time) attempts
      (.error .cancelled) := by
  refine .stopped htripped h.units_eq h.usable
    (h.after.skipping (h.units_eq ▸ hnodup) time) ?_
  have hopen : ∀ line, ((q.phases.get .build).addLog line).isFinal = false := fun line =>
    (PhaseRecord.noted_addLog _ line).isFinal_eq.trans h.unfinished
  rw [Progress.skipping, Progress.get_modifyPhase_self, Progress.phases_foldl_modifyUnit]
  exact PhaseRecord.state_finish (hopen _) ..

/-- A unit has failed, and the build does not go on. -/
theorem Amid.failed (h : Amid goOn units attempts (a.unit :: rest) p q) (hnodup : units.Nodup)
    (hputs : q.Puts a.unit a.status q') (hstops : goOn = false) (hunusable : a.usable = false)
    (reason : String) (time : UInt64) :
    BuildEnding goOn units run p (q'.failing time (.unitFailed a.unit reason)) (attempts ++ [a])
      (.error (.unitFailed a.unit reason)) := by
  have hafter := h.after.next (h.units_eq ▸ hnodup) hputs
  refine .failed hstops h.units_eq (h.usable hstops) hunusable (hafter.modifyPhase _) ?_
  rw [Progress.failing, Progress.get_modifyPhase_self]
  exact PhaseRecord.state_finish (hputs.noted.isFinal_eq.trans h.unfinished) ..

/-- All units were attempted. -/
theorem Amid.completed (h : Amid goOn units attempts [] p q) {f : PhaseRecord → PhaseRecord}
    (hf : ∀ r : PhaseRecord, r.isFinal = false →
      (f r).state = .ofOutcomes (attempts.map Attempt.usable)) :
    BuildEnding goOn units run p (q.modifyPhase .build f) attempts (.ok ()) := by
  refine .completed h.map_unit_eq h.usable (h.after.modifyPhase f) ?_
  rw [Progress.get_modifyPhase_self]
  exact hf _ h.unfinished

end

end ProtoBuild
