import Mathlib.Data.List.Sort
import ProtoBuild.Proofs.Path.Places
import ProtoBuild.Resolution

/-!
# The order of the units

Depth is a number, and what it stands for is that a directory is less deep than what lies in it
(`depth_lt_of_encloses`).  So the deepest first means the contents first, and the lake as a whole
last (`pairwise_deepestFirst`).

Among units of one depth the order is that of their names, so only a unit itself is neither before
nor after it.  Hence the order does not depend on how the units were listed
(`deepestFirst_eq_of_perm`), even if some are listed twice.
-/

namespace ProtoBuild

open ProtoBuild.Path Text

namespace Resolution

variable {a b c inner outer : String} {units found : List String}

/-! ## Directories and their contents -/

/-- A unit lies in the directory of another one.  All others lie in the lake as a whole. -/
def Encloses (outer inner : String) : Prop :=
  inner ≠ outer ∧ (outer = "." ∨ outer.toList ++ ['/'] <+: inner.toList)

/-- What a discovery finds: the lake as a whole, or a path of names. -/
def IsUnitPath (unit : String) : Prop := unit = "." ∨ IsNamed unit.toList

theorem depth_of_isNamed (h : IsNamed a.toList) :
    depth a = (splitOn '/' a.toList).length := by
  have hne : a ≠ "." := fun heq => h.ne_dot (by rw [heq]; rfl)
  have hall : ∀ piece ∈ splitOn '/' a.toList, (! piece.isEmpty) = true := by
    intro piece hpiece
    simpa using (h piece hpiece).1
  rw [depth, if_neg hne, List.filter_eq_self.mpr hall]

theorem depth_pos (h : IsNamed a.toList) : 0 < depth a := by
  rw [depth_of_isNamed h]
  exact List.length_pos_iff.mpr (splitWhere_ne_nil _ _)

/-- A path of names is deeper than what it begins with. -/
theorem length_splitOn_lt {cs front : List Char} (h : front ++ ['/'] <+: cs) :
    (splitOn '/' front).length < (splitOn '/' cs).length := by
  obtain ⟨rest, rfl⟩ := h
  rw [List.append_assoc, List.singleton_append, splitOn_append_cons, List.length_append]
  have hrest : 0 < (splitOn '/' rest).length :=
    List.length_pos_iff.mpr (splitWhere_ne_nil _ _)
  omega

/-- The lake as a whole lies in no directory. -/
theorem Encloses.ne_root (h : Encloses outer inner) (houter : IsUnitPath outer) : inner ≠ "." := by
  rintro rfl
  obtain ⟨hne, hin⟩ := h
  have houter : IsNamed outer.toList := houter.resolve_left (Ne.symm hne)
  -- nothing but itself begins with the text of the lake as a whole
  have hlength := (hin.resolve_left (Ne.symm hne)).length_le
  have hpos : 0 < outer.toList.length := List.length_pos_iff.mpr houter.ne_nil
  have hone : ".".toList.length = 1 := rfl
  rw [List.length_append, List.length_singleton, hone] at hlength
  omega

/-- A directory is less deep than what lies in it. -/
theorem depth_lt_of_encloses (h : Encloses outer inner) (hinner : IsUnitPath inner)
    (houter : IsUnitPath outer) : depth outer < depth inner := by
  have hinner : IsNamed inner.toList := hinner.resolve_left (h.ne_root houter)
  rcases houter with rfl | houter
  · exact depth_pos hinner
  · rcases h.2 with rfl | hprefix
    · exact absurd rfl houter.ne_dot
    · rw [depth_of_isNamed houter, depth_of_isNamed hinner]
      exact length_splitOn_lt hprefix

/-! ## One order for all lists -/

theorem precedes_iff : precedes a b = true ↔ depth b < depth a ∨ depth a = depth b ∧ a ≤ b := by
  simp [precedes]

theorem precedes_trans (hab : precedes a b = true) (hbc : precedes b c = true) :
    precedes a c = true := by
  rw [precedes_iff] at *
  rcases hab with hab | ⟨hab, hle⟩
  · rcases hbc with hbc | ⟨hbc, -⟩
    · exact Or.inl (by omega)
    · exact Or.inl (by omega)
  · rcases hbc with hbc | ⟨hbc, hle'⟩
    · exact Or.inl (by omega)
    · exact Or.inr ⟨hab.trans hbc, String.le_trans hle hle'⟩

theorem precedes_total (a b : String) : (precedes a b || precedes b a) = true := by
  rw [Bool.or_eq_true, precedes_iff, precedes_iff]
  rcases Nat.lt_trichotomy (depth a) (depth b) with hlt | heq | hlt
  · exact Or.inr (Or.inl hlt)
  · rcases String.le_total a b with hle | hle
    · exact Or.inl (Or.inr ⟨heq, hle⟩)
    · exact Or.inr (Or.inr ⟨heq.symm, hle⟩)
  · exact Or.inl (Or.inl hlt)

theorem precedes_antisymm (hab : precedes a b = true) (hba : precedes b a = true) : a = b := by
  rw [precedes_iff] at *
  have hdepth : depth a = depth b := by omega
  have hle : a ≤ b := by
    rcases hab with hab | hab
    · omega
    · exact hab.2
  have hge : b ≤ a := by
    rcases hba with hba | hba
    · omega
    · exact hba.2
  exact String.le_antisymm hle hge

theorem pairwise_precedes (units : List String) :
    (deepestFirst units).Pairwise fun a b => precedes a b = true :=
  @List.pairwise_mergeSort _ precedes (fun _ _ _ => precedes_trans) precedes_total units

/-- The order does not depend on how the units were listed. -/
theorem deepestFirst_eq_of_perm (h : units.Perm found) :
    deepestFirst units = deepestFirst found := by
  have hperm : (deepestFirst units).Perm (deepestFirst found) :=
    (List.mergeSort_perm units precedes).trans (h.trans (List.mergeSort_perm found precedes).symm)
  exact hperm.eq_of_pairwise (fun _ _ _ _ => precedes_antisymm) (pairwise_precedes units)
    (pairwise_precedes found)

/-- No two units are tied, so any way to sort them gives this order, also one that computes in a
proof. -/
theorem deepestFirst_eq_insertionSort :
    deepestFirst = List.insertionSort fun a b => precedes a b = true := by
  have htotal : Std.Total fun a b => precedes a b = true :=
    ⟨fun a b => Bool.or_eq_true .. ▸ precedes_total a b⟩
  have htrans : IsTrans String fun a b => precedes a b = true := ⟨fun _ _ _ => precedes_trans⟩
  have hantisymm : Std.Antisymm fun a b => precedes a b = true := ⟨fun _ _ => precedes_antisymm⟩
  funext units
  rw [← List.mergeSort_eq_insertionSort, deepestFirst]
  simp only [Bool.decide_eq_true]

/-- **Contents first.**  No unit stands before one that lies in its directory. -/
theorem pairwise_deepestFirst (h : ∀ unit ∈ units, IsUnitPath unit) :
    (deepestFirst units).Pairwise fun a b => ¬ Encloses a b := by
  have hmem : ∀ unit ∈ deepestFirst units, IsUnitPath unit := fun unit hunit =>
    h unit (List.mem_mergeSort.mp hunit)
  refine (pairwise_precedes units).imp_of_mem ?_
  intro a b ha hb hprecedes hencloses
  have hlt := depth_lt_of_encloses hencloses (hmem b hb) (hmem a ha)
  rw [precedes_iff] at hprecedes
  omega

end Resolution
end ProtoBuild
