import ProtoBuild.Proofs.Path.Places

/-!
# What a lake takes for its own

The root of a lake may be any path, also a relative one such as `.` or `a/..`.  What leads to a
place of the lake does not depend on this (`Workspace.LeadsTo`): from the root to where the target
leads there are only names left to go, and an absolute target leads to no place of a lake whose
root is relative, since nothing is known of where that root lies.

`taken_iff` compares this with what a lake takes.  A relative root that leads nowhere has no
component, so everything lies below it.  Such a lake takes every absolute target
(`Workspace.Baseless`); all others take what leads to one of their places and nothing else.

## Why a relative root is not resolved first

A relative path is meant from a directory that only the machine knows, while `resolve?` is lexical
and does not ask.  So what is compared below a relative root are names from an unknown place on,
and an absolute target is not comparable with them.
-/

namespace ProtoBuild

open ProtoBuild.Path Text

namespace Path

variable {base full names : List (List Char)} {steps : List Component} {root child : String}

/-! ## Below a relative root -/

theorem isAbsolute_join_of_relative (hroot : isAbsolute root = false)
    (hchild : isAbsolute child = false) : isAbsolute (join root child) = false := by
  rw [join, hchild, Bool.false_or]
  split
  · exact hchild
  · rename_i hempty
    have hne : root ≠ "" := mt String.isEmpty_iff.mpr hempty
    split
    · rw [isAbsolute_append hne, hroot]
    · rw [String.append_assoc, isAbsolute_append hne, hroot]

/-- A relative path below a relative one leads on from where that leads. -/
theorem resolve?_join_of_relative (hroot : isAbsolute root = false)
    (hchild : isAbsolute child = false) :
    resolve? (join root child) =
      ((reduce? [] root.toList).bind fun base => reduce? base child.toList).map
        (List.map .name) := by
  rw [resolve?_eq_of_relative (isAbsolute_join_of_relative hroot hchild)]
  congr 1
  by_cases hempty : root = ""
  · subst hempty
    rw [join, hchild]
    rfl
  · exact reduce?_join [] hempty hchild

theorem below?_map_name_iff :
    below? (base.map .name) (full.map .name) = some steps ↔
      ∃ names, full = base ++ names ∧ steps = names.map .name := by
  rw [below?_eq_some_iff, List.map_eq_append_iff]
  constructor
  · rintro ⟨front, names, rfl, hfront, rfl⟩
    obtain rfl := (List.map_inj_right fun _ _ => Component.name.inj).mp hfront
    exact ⟨names, rfl, rfl⟩
  · rintro ⟨names, rfl, rfl⟩
    exact ⟨base, names, rfl, rfl, rfl⟩

/-- An absolute place is below no names but below nothing at all. -/
theorem below?_map_name_ofNames_iff :
    below? (base.map .name) (ofNames full) = some steps ↔ base = [] ∧ steps = ofNames full := by
  rw [below?_eq_some_iff]
  cases base with
  | nil => simp [eq_comm]
  | cons name base => simp [ofNames]

/-- What is written for an absolute place whose first slash is taken for a name. -/
def slashedText (names : List (List Char)) : String :=
  String.ofList (Text.join '/' (['/'] :: names))

theorem relativeText_ofNames (names : List (List Char)) :
    relativeText (ofNames names) = slashedText names := by
  have htext : (ofNames names).map Component.text = ['/'] :: names := by
    rw [ofNames, List.map_cons, List.map_map]
    exact congrArg (['/'] :: ·) (List.map_id names)
  rw [relativeText, htext]
  rfl

end Path

namespace Workspace

variable {lake : Workspace} {target place : String} {names : List (List Char)}

/-- Names that lead on from the root of a lake to where a target leads.  An absolute target leads
to no place of a lake with a relative root. -/
structure LeadsTo (lake : Workspace) (target : String) (names : List (List Char)) : Prop where
  comparable : isAbsolute target = true → isAbsolute lake.root = true
  leads : ∃ base, reduce? [] lake.root.toList = some base ∧
    reduceFrom? base target = some (base ++ names)

/-- The root of a lake is a relative path that leads nowhere. -/
structure Baseless (lake : Workspace) : Prop where
  relative : isAbsolute lake.root = false
  leads : reduce? [] lake.root.toList = some []

/-- A relative target in a lake with a relative root. -/
theorem relative?_eq_some_iff_of_relative (hroot : isAbsolute lake.root = false)
    (htarget : isAbsolute target = false) :
    lake.relative? target = some place ↔
      ∃ names, lake.LeadsTo target names ∧ place = placeText names := by
  have hleads : ∀ names, lake.LeadsTo target names ↔
      ∃ base, reduce? [] lake.root.toList = some base ∧
        reduce? base target.toList = some (base ++ names) := by
    intro names
    have hfrom : ∀ base, reduceFrom? base target = reduce? base target.toList := fun base => by
      rw [reduceFrom?, htarget, if_neg Bool.false_ne_true]
    constructor
    · rintro ⟨-, base, hbase, hnames⟩
      exact ⟨base, hbase, hfrom base ▸ hnames⟩
    · rintro ⟨base, hbase, hnames⟩
      refine ⟨fun habsolute => ?_, base, hbase, (hfrom base).trans hnames⟩
      rw [htarget] at habsolute
      cases habsolute
  rw [relative?, resolve?_eq_of_relative hroot, resolve?_join_of_relative hroot htarget]
  simp only [Option.bind_eq_bind, Option.bind_eq_some_iff, Option.map_eq_some_iff, hleads]
  constructor
  · rintro ⟨_, ⟨base, hbase, rfl⟩, _, ⟨full, ⟨base', hbase', hfull⟩, rfl⟩, steps, hsteps, hplace⟩
    cases hbase.symm.trans hbase'
    obtain ⟨names, rfl, rfl⟩ := below?_map_name_iff.mp hsteps
    rw [relativeText_map_name] at hplace
    exact ⟨names, ⟨base, hbase, hfull⟩, (Option.some.inj hplace).symm⟩
  · rintro ⟨names, ⟨base, hbase, hfull⟩, rfl⟩
    refine ⟨_, ⟨base, hbase, rfl⟩, _, ⟨_, ⟨base, hbase, hfull⟩, rfl⟩, names.map .name,
      below?_map_name_iff.mpr ⟨names, rfl, rfl⟩, ?_⟩
    rw [relativeText_map_name]
    rfl

/-- An absolute target in a lake with a relative root. -/
theorem relative?_eq_some_iff_of_absolute (hroot : isAbsolute lake.root = false)
    (htarget : isAbsolute target = true) :
    lake.relative? target = some place ↔
      reduce? [] lake.root.toList = some [] ∧
        ∃ names, reduce? [] target.toList = some names ∧ place = slashedText names := by
  have hjoin : Path.join lake.root target = target := by
    rw [Path.join, htarget, Bool.true_or, if_pos rfl]
  rw [relative?, hjoin, resolve?_eq_of_relative hroot, resolve?_eq htarget]
  simp only [Option.bind_eq_bind, Option.bind_eq_some_iff, Option.map_eq_some_iff]
  constructor
  · rintro ⟨_, ⟨base, hbase, rfl⟩, _, ⟨names, hnames, rfl⟩, steps, hsteps, hplace⟩
    obtain ⟨rfl, rfl⟩ := below?_map_name_ofNames_iff.mp hsteps
    rw [relativeText_ofNames] at hplace
    exact ⟨hbase, names, hnames, (Option.some.inj hplace).symm⟩
  · rintro ⟨hbase, names, hnames, rfl⟩
    refine ⟨_, ⟨[], hbase, rfl⟩, _, ⟨names, hnames, rfl⟩, _,
      below?_map_name_ofNames_iff.mpr ⟨rfl, rfl⟩, ?_⟩
    rw [relativeText_ofNames]
    rfl

/-- The names of a place of a lake are names. -/
theorem LeadsTo.isName (h : lake.LeadsTo target names) :
    ∀ name ∈ names, IsName name ∧ '/' ∉ name := by
  obtain ⟨base, hbase, hnames⟩ := h.leads
  exact isName_of_relative? hbase hnames

/-- **What a lake takes for its own.**  Whatever its root is, a lake takes a target for a place
exactly if the target leads to it, or if the root is a relative path that leads nowhere and the
target is absolute.  But for these lakes and targets nothing outside the lake is taken, no
absolute target is taken below a relative root, and the text of a place is `.` or has names only
and does not begin with a slash. -/
theorem taken_iff (lake : Workspace) (target place : String) :
    (lake.relative? target = some place ↔
      (∃ names, lake.LeadsTo target names ∧ place = placeText names) ∨
        (lake.Baseless ∧ isAbsolute target = true) ∧
          ∃ names, reduce? [] target.toList = some names ∧ place = slashedText names) ∧
    (lake.relative? target = some place → ¬ (lake.Baseless ∧ isAbsolute target = true) →
      (isAbsolute target = true → isAbsolute lake.root = true) ∧
        (place = "." ∨ ∀ piece ∈ splitOn '/' place.toList, IsName piece) ∧
          isAbsolute place = false) := by
  have htaken : lake.relative? target = some place ↔
      (∃ names, lake.LeadsTo target names ∧ place = placeText names) ∨
        (lake.Baseless ∧ isAbsolute target = true) ∧
          ∃ names, reduce? [] target.toList = some names ∧ place = slashedText names := by
    cases hroot : isAbsolute lake.root with
    | true =>
      have hbased : ¬ lake.Baseless := fun h => nomatch hroot.symm.trans h.relative
      rw [relative?_eq_some_iff hroot]
      simp only [hbased, false_and, or_false]
      constructor
      · rintro ⟨base, names, hbase, hnames, hplace⟩
        exact ⟨names, ⟨fun _ => hroot, base, hbase, hnames⟩, hplace⟩
      · rintro ⟨names, ⟨-, base, hbase, hnames⟩, hplace⟩
        exact ⟨base, names, hbase, hnames, hplace⟩
    | false =>
      cases htarget : isAbsolute target with
      | false => simp [relative?_eq_some_iff_of_relative hroot htarget]
      | true =>
        have hcomparable : ∀ names, ¬ lake.LeadsTo target names := fun names h =>
          nomatch hroot.symm.trans (h.comparable htarget)
        have hbaseless : lake.Baseless ↔ reduce? [] lake.root.toList = some [] :=
          ⟨fun h => h.leads, fun h => ⟨hroot, h⟩⟩
        simp [relative?_eq_some_iff_of_absolute hroot htarget, hcomparable, hbaseless]
  refine ⟨htaken, fun hplace hbased => ?_⟩
  rcases htaken.mp hplace with ⟨names, hleads, rfl⟩ | ⟨hbaseless, -⟩
  · refine ⟨hleads.comparable, ?_, isAbsolute_placeText hleads.isName⟩
    rcases placeText_cases hleads.isName with ⟨-, htext⟩ | ⟨-, hnamed⟩
    · exact Or.inl htext
    · exact Or.inr hnamed
  · exact absurd hbaseless hbased

/-- A lake at `a/..` takes the target `b/../c` for `c`. -/
theorem taken_of_detour :
    ∃ lake : Workspace, lake.root = "a/.." ∧ lake.relative? "b/../c" = some "c" ∧
      ("c" = "." ∨ ∀ piece ∈ splitOn '/' "c".toList, IsName piece) ∧ isAbsolute "c" = false := by
  let lake : Workspace := { root := "a/.." }
  have hleads : lake.LeadsTo "b/../c" [['c']] := ⟨by decide, [], by decide, by decide⟩
  have hbased : ¬ (lake.Baseless ∧ isAbsolute "b/../c" = true) := fun h =>
    absurd h.2 (by decide)
  obtain ⟨htaken, hnormal⟩ := taken_iff lake "b/../c" "c"
  have hplace := htaken.mpr (Or.inl ⟨[['c']], hleads, by decide⟩)
  exact ⟨lake, rfl, hplace, (hnormal hplace hbased).2⟩

/-- A lake in the present directory takes an absolute target for a place of its own, and what it
writes for this place begins with a slash. -/
theorem absolute_taken_below_relative :
    ∃ (lake : Workspace) (target place : String), isAbsolute lake.root = false ∧
      isAbsolute target = true ∧ lake.relative? target = some place ∧
        isAbsolute place = true ∧ ¬ (place = "." ∨ ∀ piece ∈ splitOn '/' place.toList,
          IsName piece) := by
  refine ⟨{ root := "." }, "/etc/passwd", "//etc/passwd", by decide, by decide, by decide,
    by decide, ?_⟩
  rintro (hroot | hnamed)
  · exact absurd hroot (by decide)
  · exact not_isNamed_of_slash_left "/etc/passwd".toList hnamed

end Workspace
end ProtoBuild
