import ProtoBuild.Proofs.Pipeline.Marks
import ProtoBuild.Proofs.Pipeline.Phases

/-!
# What has become of the units

A build that is asked to stop has not built all of its units, and it says so: `Accounted` is said
of a progress in which each unit was either given to the build tool or skipped.  The build tool is
given patterns, and two units may have the same one; so it is a list of units that was attempted,
and the patterns in the run are theirs, one by one.

While units are built, some were attempted and the rest wait (`Progress.Covers`).  Before, there
are none (`Unattempted`).
-/

namespace ProtoBuild

/-- The pattern that a call gives to the build tool. -/
def Call.pattern? : Call → Option String
  | build _ _ pattern => some pattern
  | _ => none

/-! ## Units that are attempted or skipped -/

namespace Progress

variable {p : Progress}

/-- Each unit was attempted, is skipped, or is one of the rest and waits. -/
def Covers (attempted rest : List String) (p : Progress) : Prop :=
  ∀ key u, p.units.get? key = some u →
    key ∈ attempted ∨ u.status = .skipped ∨ key ∈ rest ∧ u.status = .pending

namespace Covers

variable {attempted rest : List String} {unit : String}

/-- The next unit is attempted. -/
theorem next (h : p.Covers attempted (unit :: rest)) : p.Covers (attempted ++ [unit]) rest := by
  intro key u hu
  rcases h key u hu with hkey | hskipped | ⟨hkey, hpending⟩
  · exact Or.inl (List.mem_append_left _ hkey)
  · exact Or.inr (Or.inl hskipped)
  · rcases List.mem_cons.mp hkey with rfl | hkey
    · exact Or.inl (List.mem_append_right _ (List.mem_singleton_self key))
    · exact Or.inr (Or.inr ⟨hkey, hpending⟩)

/-- What is done to a unit that was attempted does not matter. -/
theorem modifyUnit (h : p.Covers attempted rest) (hunit : unit ∈ attempted)
    (g : UnitRecord → UnitRecord) : (p.modifyUnit unit g).Covers attempted rest := by
  intro key u hu
  obtain ⟨v, hv, rfl⟩ := get?_modifyUnit hu
  split
  · rename_i hkey
    exact Or.inl (hkey ▸ hunit)
  · exact h key v hv

/-- The next unit is skipped. -/
theorem skip (h : p.Covers attempted (unit :: rest)) (time : UInt64) :
    (p.modifyUnit unit fun u => (u.move .skipped time).1).Covers attempted rest := by
  intro key u hu
  obtain ⟨v, hv, rfl⟩ := get?_modifyUnit hu
  rcases h key v hv with hkey | hskipped | ⟨hkey, hpending⟩
  · exact Or.inl hkey
  · refine Or.inr (Or.inl ?_)
    split
    · rw [UnitRecord.status_move, hskipped]
      rfl
    · exact hskipped
  · split
    · refine Or.inr (Or.inl ?_)
      rw [UnitRecord.status_move, hpending]
      rfl
    · rename_i hne
      exact Or.inr (Or.inr ⟨(List.mem_cons.mp hkey).resolve_left hne, hpending⟩)

/-- Of the units that are added all are waiting. -/
theorem of_insertAll (h : p.units = ∅) (units : List String) (version : String) :
    Covers [] units
      { p with
        units :=
          units.foldl (fun m u => m.insert u { target := u, version := version }) p.units } := by
  intro key u hu
  rcases StringMap.get?_foldl_insert hu with ⟨hkey, rfl⟩ | hu
  · exact Or.inr (Or.inr ⟨hkey, rfl⟩)
  · rw [h] at hu
    exact nomatch hu

end Covers

end Progress

namespace Pipeline

variable {run more : Run} {p : Progress}

/-! ## What was built -/

/-- The patterns that were given to the build tool in a run. -/
def builds (run : Run) : List String := (calls run).filterMap fun x => x.1.pattern?

@[simp] theorem builds_append : builds (run ++ more) = builds run ++ builds more := by
  rw [builds, calls_append, List.filterMap_append, builds, builds]

/-- Nothing was given to the build tool, and there is nothing to be built yet. -/
structure Unattempted (run : Run) (p : Progress) : Prop where
  builds_eq : builds run = []
  units_eq : p.units = ∅

/-- The build phase has not been reached. -/
structure Unbuilt (run : Run) (p : Progress) : Prop extends Unattempted run p where
  build_eq : (p.phases.get .build).state = .notStarted

/-- Each unit was given to the build tool or is skipped. -/
def Accounted (run : Run) (p : Progress) : Prop :=
  ∃ attempted : List String, builds run = attempted.map Path.pattern ∧
    ∀ key u, p.units.get? key = some u → key ∈ attempted ∨ u.status = .skipped

theorem Unattempted.silent (h : Unattempted run p) (hmore : builds more = []) :
    Unattempted (run ++ more) p where
  builds_eq := by rw [builds_append, h.builds_eq, hmore, List.append_nil]
  units_eq := h.units_eq

theorem Unattempted.modifyPhase (h : Unattempted run p) (phase : Phase)
    (f : PhaseRecord → PhaseRecord) : Unattempted run (p.modifyPhase phase f) :=
  ⟨h.builds_eq, h.units_eq⟩

theorem Unattempted.advance (h : Unattempted run p) (stage : Stage) :
    Unattempted run (p.advance stage).1 :=
  ⟨h.builds_eq, Progress.units_advance.trans h.units_eq⟩

theorem Unbuilt.silent (h : Unbuilt run p) (hmore : builds more = []) :
    Unbuilt (run ++ more) p where
  toUnattempted := h.toUnattempted.silent hmore
  build_eq := h.build_eq

/-- What is done in another phase leaves the build phase alone. -/
theorem Unbuilt.modifyPhase (h : Unbuilt run p) {phase : Phase} (hphase : phase ≠ .build)
    (f : PhaseRecord → PhaseRecord) : Unbuilt run (p.modifyPhase phase f) where
  toUnattempted := h.toUnattempted.modifyPhase phase f
  build_eq := by rw [Progress.get_modifyPhase_of_ne hphase.symm, h.build_eq]

theorem Unbuilt.advance (h : Unbuilt run p) (stage : Stage) : Unbuilt run (p.advance stage).1 where
  toUnattempted := h.toUnattempted.advance stage
  build_eq := by rw [Progress.phases_advance, h.build_eq]

/-- A phase before the build phase is entered. -/
theorem Unbuilt.enter (h : Unbuilt run p) {phase : Phase} (hphase : phase ≠ .build)
    (time : UInt64) : Unbuilt run (enteredInto phase time p) :=
  (h.advance phase.stage).modifyPhase hphase _

theorem accounted_of_covers {attempted : List String} (h : p.Covers attempted [])
    (hbuilds : builds run = attempted.map Path.pattern) : Accounted run p := by
  refine ⟨attempted, hbuilds, fun key u hu => ?_⟩
  rcases h key u hu with hkey | hskipped | ⟨hnone, -⟩
  · exact Or.inl hkey
  · exact Or.inr hskipped
  · exact absurd hnone List.not_mem_nil

theorem Unattempted.accounted (h : Unattempted run p) : Accounted run p := by
  refine ⟨[], h.builds_eq, fun key u hu => ?_⟩
  rw [h.units_eq] at hu
  exact nomatch hu

theorem Accounted.silent (h : Accounted run p) (hmore : builds more = []) :
    Accounted (run ++ more) p := by
  obtain ⟨attempted, hbuilds, hunits⟩ := h
  refine ⟨attempted, ?_, hunits⟩
  rw [builds_append, hbuilds, hmore, List.append_nil]

theorem Accounted.advance (h : Accounted run p) (stage : Stage) :
    Accounted run (p.advance stage).1 := by
  rw [Accounted, Progress.units_advance]
  exact h

end Pipeline
end ProtoBuild
