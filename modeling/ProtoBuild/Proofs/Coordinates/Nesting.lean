import ProtoBuild.Proofs.Coordinates.Ownership
import ProtoBuild.Proofs.Resolution.Order
import ProtoBuild.Proofs.Text.Pieces

/-!
# Nested units and the owner of a label

`Ownership` takes units as they come and so has to say which of several equally deep ones owns a
label.  For a label of the main workspace there are no such units.  Its package lies in one
directory, so two units that hold it lie one within the other (`encloses_or_encloses`), and a
directory is less deep and also shorter than what lies in it.  Hence the deepest unit that holds
the package is the longest one, there is just one, and it does not matter how the units are
listed (`owner?_longest`).

## Why a slash is put behind both texts

That the package `a/bc` begins with the text of the unit `a/b` does not mean that it lies there.
With a slash behind both texts it does: a unit holds a package exactly if then the one text begins
with the other, whether the package is the unit itself or lies below it (`Holds.isPrefix`).  And if
a text begins with two others, the longer of these begins with the shorter.
-/

namespace ProtoBuild

open ProtoBuild.Path Text

namespace Label

variable {package label name : String} {cs : List Char}

/-- A text that may stand for a package of the main workspace. -/
structure IsPackage (package : String) : Prop where
  colon : ':' ∉ package.toList
  slash : package.toList.head? ≠ some '/'

/-- The labels of a package of the main workspace: they name a rule, perhaps behind an at sign, or
the package alone. -/
inductive Names (package : String) : String → Prop
  | rule {name : String} (h : ':' ∉ name.toList) : Names package ("//" ++ package ++ ":" ++ name)
  | main {name : String} (h : ':' ∉ name.toList) : Names package ("@//" ++ package ++ ":" ++ name)
  | alone : Names package ("//" ++ package)

theorem trimSlashPairs_of_head? (h : cs.head? ≠ some '/') : trimSlashPairs cs = cs := by
  rw [trimSlashPairs]
  rintro rest rfl
  exact h rfl

/-- What is named behind two slashes is cut at its last colon. -/
theorem package_ofString (hslashes : label.toList.dropWhile (· == '@') = '/' :: '/' :: cs)
    (hhead : cs.head? ≠ some '/') :
    (ofString label).package = ((splitLast? ':' cs).map Prod.fst).getD cs := by
  rw [ofString, hslashes, trimSlashPairs, trimSlashPairs_of_head? hhead]
  cases splitLast? ':' cs <;> rfl

theorem package_ofString_of_rule (hpackage : IsPackage package) (hname : ':' ∉ name.toList)
    (hslashes : label.toList.dropWhile (· == '@') =
      '/' :: '/' :: (package.toList ++ ':' :: name.toList)) :
    (ofString label).package = package.toList := by
  have hhead : (package.toList ++ ':' :: name.toList).head? ≠ some '/' := by
    rw [List.head?_append]
    cases hfirst : package.toList.head? with
    | none => simp
    | some c => simpa [hfirst] using hpackage.slash
  rw [package_ofString hslashes hhead, splitLast?_append_cons _ hname]
  rfl

/-- **The package of a label** is the one that it names. -/
theorem Names.package_eq (hlabel : Names package label) (hpackage : IsPackage package) :
    (ofString label).package = package.toList := by
  cases hlabel with
  | rule hname => exact package_ofString_of_rule hpackage hname (by simp)
  | main hname => exact package_ofString_of_rule hpackage hname (by simp)
  | alone =>
    have hslashes : ("//" ++ package).toList.dropWhile (· == '@') =
        '/' :: '/' :: package.toList := by simp
    rw [package_ofString hslashes hpackage.slash, splitLast?_eq_none_iff.mpr hpackage.colon]
    rfl

end Label

namespace Resolution

variable {units units' : List String} {package label unit other inner outer : String}

/-- The directory of a unit holds a package. -/
def Holds (unit package : String) : Prop :=
  unit = "." ∨ package = unit ∨ unit.toList ++ ['/'] <+: package.toList

instance (unit package : String) : Decidable (Holds unit package) :=
  inferInstanceAs (Decidable (_ ∨ _ ∨ _))

theorem isIn_iff (hlabel : Label.Names package label) (hpackage : Label.IsPackage package) :
    (Label.ofString label).isIn unit = true ↔ Holds unit package := by
  simp only [Label.isIn, hlabel.package_eq hpackage, Bool.or_eq_true, beq_iff_eq, Holds,
    List.isPrefixOf_iff_prefix, String.toList_inj, or_assoc]

/-! ## Units that hold one package -/

theorem Holds.isPrefix (h : Holds unit package) (hunit : unit ≠ ".") :
    unit.toList ++ ['/'] <+: package.toList ++ ['/'] := by
  rcases h with rfl | rfl | hbelow
  · exact absurd rfl hunit
  · exact List.prefix_refl _
  · exact hbelow.trans (List.prefix_append _ _)

theorem encloses_of_isPrefix (h : outer.toList ++ ['/'] <+: inner.toList ++ ['/'])
    (hne : inner ≠ outer) : Encloses outer inner := by
  rcases List.prefix_concat_iff.mp h with heq | hbelow
  · exact absurd (String.toList_inj.mp (List.append_cancel_right heq)).symm hne
  · exact ⟨hne, Or.inr hbelow⟩

/-- **Two units that hold one package lie one within the other.** -/
theorem encloses_or_encloses (h : Holds unit package) (h' : Holds other package)
    (hne : unit ≠ other) : Encloses unit other ∨ Encloses other unit := by
  by_cases hunit : unit = "."
  · exact Or.inl ⟨hne.symm, Or.inl hunit⟩
  · by_cases hother : other = "."
    · exact Or.inr ⟨hne, Or.inl hother⟩
    · rcases Nat.le_total (unit.toList ++ ['/']).length (other.toList ++ ['/']).length with
        hle | hle
      · exact Or.inl (encloses_of_isPrefix
          (List.prefix_of_prefix_length_le (h.isPrefix hunit) (h'.isPrefix hother) hle) hne.symm)
      · exact Or.inr (encloses_of_isPrefix
          (List.prefix_of_prefix_length_le (h'.isPrefix hother) (h.isPrefix hunit) hle) hne)

/-- How long a unit path is.  The `.` of the lake as a whole stands for no names. -/
def extent (unit : String) : Nat :=
  if unit = "." then 0 else unit.length

/-- A directory is shorter than what lies in it. -/
theorem extent_lt_of_encloses (h : Encloses outer inner) (hinner : IsUnitPath inner)
    (houter : IsUnitPath outer) : extent outer < extent inner := by
  have hne : inner ≠ "." := h.ne_root houter
  rw [extent, extent, if_neg hne]
  split
  · have hnamed := hinner.resolve_left hne
    exact List.length_pos_iff.mpr hnamed.ne_nil
  · rename_i hroot
    have hlength := (h.2.resolve_left hroot).length_le
    rw [List.length_append, List.length_singleton] at hlength
    exact hlength

/-! ## The longest unit -/

/-- Of some units, one is the longest that holds a package. -/
structure Longest (units : List String) (package unit : String) : Prop where
  mem : unit ∈ units
  holds : Holds unit package
  extent_lt : ∀ other ∈ units, Holds other package → other ≠ unit → extent other < extent unit

theorem Longest.unique (h : Longest units package unit) (h' : Longest units package other) :
    unit = other := by
  refine Decidable.byContradiction fun hne => ?_
  have hlt := h.extent_lt other h'.mem h'.holds (Ne.symm hne)
  exact Nat.lt_asymm hlt (h'.extent_lt unit h.mem h.holds hne)

/-- The deepest unit that holds a package is the longest. -/
theorem Longest.of_owner? (hunits : ∀ unit ∈ units, IsUnitPath unit)
    (hpackage : Label.IsPackage package) (hlabel : Label.Names package label)
    (h : owner? units label = some unit) : Longest units package unit := by
  obtain ⟨hmem, hisIn⟩ := mem_and_isIn_of_owner? h
  have hholds : Holds unit package := (isIn_iff hlabel hpackage).mp hisIn
  refine ⟨hmem, hholds, fun other hother hother' hne => ?_⟩
  rcases encloses_or_encloses hother' hholds hne with hencloses | hencloses
  · exact extent_lt_of_encloses hencloses (hunits unit hmem) (hunits other hother)
  · -- then the other one would be deeper, and the deepest is no longer the deepest
    have hlt := depth_lt_of_encloses hencloses (hunits other hother) (hunits unit hmem)
    have hle := depth_le_of_owner? h hother ((isIn_iff hlabel hpackage).mpr hother')
    exact absurd hlt (Nat.not_lt.mpr hle)

theorem owner?_eq_none_iff_forall (hpackage : Label.IsPackage package)
    (hlabel : Label.Names package label) :
    owner? units label = none ↔ ∀ unit ∈ units, ¬ Holds unit package := by
  simp only [owner?_eq_none_iff, ← Bool.not_eq_true, isIn_iff hlabel hpackage]

theorem owner?_eq_some_iff_longest (hunits : ∀ unit ∈ units, IsUnitPath unit)
    (hpackage : Label.IsPackage package) (hlabel : Label.Names package label) :
    owner? units label = some unit ↔ Longest units package unit := by
  refine ⟨Longest.of_owner? hunits hpackage hlabel, fun h => ?_⟩
  cases howner : owner? units label with
  | none => exact absurd h.holds ((owner?_eq_none_iff_forall hpackage hlabel).mp howner unit h.mem)
  | some other => rw [h.unique (Longest.of_owner? hunits hpackage hlabel howner)]

/-- The order of the units does not matter, nor how often each is listed. -/
theorem Longest.of_mem_iff (hmem : ∀ unit, unit ∈ units' ↔ unit ∈ units)
    (h : Longest units package unit) : Longest units' package unit where
  mem := (hmem unit).mpr h.mem
  holds := h.holds
  extent_lt other hother := h.extent_lt other ((hmem other).mp hother)

/-- **A label has one owner, however the units are listed.**  Among units in normal form the owner
of a label of the main workspace is the longest that holds its package, and there is at most one
such unit.  A label has no owner exactly if no unit holds its package.  Lists with the same units
give the same owner. -/
theorem owner?_longest (hunits : ∀ unit ∈ units, IsUnitPath unit)
    (hpackage : Label.IsPackage package) (hlabel : Label.Names package label) :
    (∀ unit, owner? units label = some unit ↔ Longest units package unit) ∧
      (∀ unit other, Longest units package unit → Longest units package other → unit = other) ∧
      (owner? units label = none ↔ ∀ unit ∈ units, ¬ Holds unit package) ∧
      ∀ units', (∀ unit, unit ∈ units' ↔ unit ∈ units) →
        owner? units' label = owner? units label := by
  refine ⟨fun unit => owner?_eq_some_iff_longest hunits hpackage hlabel,
    fun unit other => Longest.unique, owner?_eq_none_iff_forall hpackage hlabel,
    fun units' hmem => ?_⟩
  have hunits' : ∀ unit ∈ units', IsUnitPath unit := fun unit h => hunits unit ((hmem unit).mp h)
  refine Option.ext fun unit => ?_
  rw [owner?_eq_some_iff_longest hunits' hpackage hlabel,
    owner?_eq_some_iff_longest hunits hpackage hlabel]
  exact ⟨Longest.of_mem_iff fun unit => (hmem unit).symm, Longest.of_mem_iff hmem⟩

/-- Two units are equally deep, and the text of the one begins with that of the other. -/
theorem owner?_longest_of_siblings :
    owner? [".", "a/b", "a/bc", "a"] "@//a/bc/d:rule" = some "a/bc" ∧
      owner? ["a", "a/bc", "a/b", "."] "@//a/bc/d:rule" = some "a/bc" := by
  have hunits : ∀ unit ∈ [".", "a/b", "a/bc", "a"], IsUnitPath unit := by
    unfold IsUnitPath IsNamed IsName
    decide
  have hpackage : Label.IsPackage "a/bc/d" := ⟨by decide, by decide⟩
  have hrule : ':' ∉ "rule".toList := by decide
  obtain ⟨hlongest, -, -, horder⟩ := owner?_longest hunits hpackage (.main hrule)
  have howner := (hlongest "a/bc").mpr ⟨by decide, by decide, by decide⟩
  refine ⟨howner, ?_⟩
  rw [← howner]
  exact horder [".", "a/b", "a/bc", "a"].reverse fun _ => List.mem_reverse

end Resolution
end ProtoBuild
