import ProtoBuild.Coordinates

/-!
# The owner of a label

A label may lie in the directories of several units, one within the other, and belongs to the
deepest of them.  `Owner` says so of a list of units without going through it, and
`owner?_eq_some_iff` that `owner?` finds the owner if the units are listed in order.  The order
matters only among units that are equally deep, where the last one is taken.
-/

namespace ProtoBuild

variable {units : List String} {label unit other : String}

/-! ## The deepest of some units -/

theorem deepest?_eq_none_iff : deepest? units = none ↔ units = [] := by
  cases units with
  | nil => exact ⟨fun _ => rfl, fun _ => rfl⟩
  | cons u us =>
    simp only [deepest?, reduceCtorEq, iff_false]
    split
    · exact Option.some_ne_none u
    · split <;> exact Option.some_ne_none _

/-- Where the deepest unit stands: those before it are no deeper, and those after it are less
deep. -/
theorem exists_append_of_deepest? (h : deepest? units = some unit) :
    ∃ before after, units = before ++ unit :: after ∧
      (∀ other ∈ before, Resolution.depth other ≤ Resolution.depth unit) ∧
        ∀ other ∈ after, Resolution.depth other < Resolution.depth unit := by
  induction units generalizing unit with
  | nil => exact nomatch h
  | cons u us ih =>
    rw [deepest?] at h
    split at h
    · rename_i hnone
      obtain rfl := deepest?_eq_none_iff.mp hnone
      obtain rfl := Option.some.inj h
      exact ⟨[], [], rfl, by simp, by simp⟩
    · rename_i v hv
      obtain ⟨before, after, rfl, hbefore, hafter⟩ := ih hv
      split at h
      · rename_i hlt
        obtain rfl := Option.some.inj h
        refine ⟨[], before ++ v :: after, rfl, by simp, fun other hother => ?_⟩
        rcases List.mem_append.mp hother with hother | hother
        · exact Nat.lt_of_le_of_lt (hbefore other hother) hlt
        · rcases List.mem_cons.mp hother with rfl | hother
          · exact hlt
          · exact Nat.lt_trans (hafter other hother) hlt
      · rename_i hle
        obtain rfl := Option.some.inj h
        refine ⟨u :: before, after, rfl, fun other hother => ?_, hafter⟩
        rcases List.mem_cons.mp hother with rfl | hother
        · exact Nat.le_of_not_lt hle
        · exact hbefore other hother

/-- No unit is deeper than the deepest. -/
theorem depth_le_of_deepest? (h : deepest? units = some unit) (hmem : other ∈ units) :
    Resolution.depth other ≤ Resolution.depth unit := by
  obtain ⟨before, after, rfl, hbefore, hafter⟩ := exists_append_of_deepest? h
  rcases List.mem_append.mp hmem with hmem | hmem
  · exact hbefore other hmem
  · rcases List.mem_cons.mp hmem with rfl | hmem
    · exact Nat.le_refl _
    · exact Nat.le_of_lt (hafter other hmem)

/-- Of units that are equally deep the last one is taken. -/
theorem le_of_deepest? (hsorted : units.Pairwise (· < ·)) (h : deepest? units = some unit)
    (hmem : other ∈ units) (hdepth : Resolution.depth other = Resolution.depth unit) :
    other ≤ unit := by
  obtain ⟨before, after, rfl, -, hafter⟩ := exists_append_of_deepest? h
  rcases List.mem_append.mp hmem with hmem | hmem
  · have hlt : other < unit :=
      (List.pairwise_append.mp hsorted).2.2 other hmem unit List.mem_cons_self
    exact String.not_lt.mp (String.lt_asymm hlt)
  · rcases List.mem_cons.mp hmem with rfl | hmem
    · exact String.le_refl _
    · have hless := hafter other hmem
      omega

/-! ## The owner among some units -/

/-- Of some units, one is the owner of a label: its directory holds the package, and any other
one whose directory does is less deep, or as deep and before it. -/
structure Owner (units : List String) (label unit : String) : Prop where
  mem : unit ∈ units
  isIn : (Label.ofString label).isIn unit = true
  depth_le : ∀ other ∈ units, (Label.ofString label).isIn other = true →
    Resolution.depth other ≤ Resolution.depth unit
  le_of_depth_eq : ∀ other ∈ units, (Label.ofString label).isIn other = true →
    Resolution.depth other = Resolution.depth unit → other ≤ unit

theorem owner?_eq_none_iff :
    owner? units label = none ↔ ∀ unit ∈ units, (Label.ofString label).isIn unit = false := by
  rw [owner?, deepest?_eq_none_iff, List.filter_eq_nil_iff]
  simp only [Bool.not_eq_true]

theorem mem_and_isIn_of_owner? (h : owner? units label = some unit) :
    unit ∈ units ∧ (Label.ofString label).isIn unit = true := by
  obtain ⟨before, after, hunits, -⟩ := exists_append_of_deepest? h
  refine List.mem_filter.mp (?_ : unit ∈ units.filter (Label.ofString label).isIn)
  rw [hunits]
  exact List.mem_append_right _ List.mem_cons_self

theorem depth_le_of_owner? (h : owner? units label = some unit) (hmem : other ∈ units)
    (hisIn : (Label.ofString label).isIn other = true) :
    Resolution.depth other ≤ Resolution.depth unit :=
  depth_le_of_deepest? h (List.mem_filter.mpr ⟨hmem, hisIn⟩)

theorem Owner.of_owner? (hsorted : units.Pairwise (· < ·)) (h : owner? units label = some unit) :
    Owner units label unit where
  mem := (mem_and_isIn_of_owner? h).1
  isIn := (mem_and_isIn_of_owner? h).2
  depth_le _ hmem hisIn := depth_le_of_owner? h hmem hisIn
  le_of_depth_eq _ hmem hisIn hdepth :=
    le_of_deepest? (hsorted.filter _) h (List.mem_filter.mpr ⟨hmem, hisIn⟩) hdepth

/-- A label has one owner. -/
theorem Owner.unique (h : Owner units label unit) (h' : Owner units label other) :
    unit = other := by
  have hdepth : Resolution.depth unit = Resolution.depth other :=
    Nat.le_antisymm (h'.depth_le unit h.mem h.isIn) (h.depth_le other h'.mem h'.isIn)
  exact String.le_antisymm (h'.le_of_depth_eq unit h.mem h.isIn hdepth)
    (h.le_of_depth_eq other h'.mem h'.isIn hdepth.symm)

/-- **The owner is found** among units that are listed in order. -/
theorem owner?_eq_some_iff (hsorted : units.Pairwise (· < ·)) :
    owner? units label = some unit ↔ Owner units label unit := by
  refine ⟨Owner.of_owner? hsorted, fun h => ?_⟩
  cases howner : owner? units label with
  | none =>
    have hout := owner?_eq_none_iff.mp howner unit h.mem
    rw [h.isIn] at hout
    exact nomatch hout
  | some other => rw [h.unique (Owner.of_owner? hsorted howner)]

end ProtoBuild
