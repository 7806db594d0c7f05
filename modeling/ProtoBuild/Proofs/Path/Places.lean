import ProtoBuild.Proofs.Path.Reduction
import ProtoBuild.Workspace

/-!
# Places in a lake

A target is a path that somebody has written, with slashes and dots as they came.  The lake gives
it a place: the names that lead from the root of the lake to it.  `placed_of_isAbsolute` says when
there is one and which.  The text of a place is a normal form: it is `.` or has names only, a lake
gives it itself as its place, and different places have different patterns.  So whoever builds the
pattern of a place builds what lies below it, and nothing outside the lake.
-/

namespace ProtoBuild

open ProtoBuild.Path Text

namespace Path

variable {base full names names' : List (List Char)} {steps : List Component} {cs : List Char}

/-! ## Below another place -/

theorem below?_eq_some_iff {α : Type} [DecidableEq α] {base path steps : List α} :
    below? base path = some steps ↔ path = base ++ steps := by
  fun_induction below? base path with
  | case1 path => rw [Option.some.injEq, List.nil_append]
  | case2 b bs ps ih => rw [ih, List.cons_append, List.cons.injEq, and_iff_right rfl]
  | case3 b bs p ps hne =>
    refine iff_of_false (fun h => nomatch h) fun h => ?_
    exact hne (List.cons.inj h).1.symm
  | case4 b bs => exact iff_of_false (fun h => nomatch h) fun h => nomatch h

theorem below?_ofNames_iff :
    below? (ofNames base) (ofNames full) = some steps ↔
      ∃ names, full = base ++ names ∧ steps = names.map .name := by
  rw [below?_eq_some_iff, ofNames, ofNames, List.cons_append, List.cons.injEq, and_iff_right rfl,
    List.map_eq_append_iff]
  constructor
  · rintro ⟨front, names, rfl, hfront, rfl⟩
    obtain rfl := (List.map_inj_right fun _ _ => Component.name.inj).mp hfront
    exact ⟨names, rfl, rfl⟩
  · rintro ⟨names, rfl, rfl⟩
    exact ⟨base, names, rfl, rfl, rfl⟩

/-! ## Texts of places -/

/-- The names that lead to a place with slashes between them, or `.` if there are none. -/
def placeText (names : List (List Char)) : String :=
  if names = [] then "." else String.ofList (Text.join '/' names)

theorem relativeText_map_name (names : List (List Char)) :
    relativeText (names.map .name) = placeText names := by
  rw [relativeText, placeText, List.map_map]
  cases names with
  | nil => rfl
  | cons name names =>
    have htext : (Component.text ∘ Component.name) = id := rfl
    rw [htext, List.map_id]
    rfl

/-- A text that has names only between its slashes. -/
def IsNamed (cs : List Char) : Prop :=
  ∀ piece ∈ splitOn '/' cs, IsName piece

theorem IsNamed.ne_nil (h : IsNamed cs) : cs ≠ [] := by
  rintro rfl
  exact (h [] (.head _)).1 rfl

theorem IsNamed.ne_dot (h : IsNamed cs) : cs ≠ ['.'] := by
  rintro rfl
  exact (h ['.'] (.head _)).2.1 rfl

theorem not_isNamed_of_slash_left (rest : List Char) : ¬ IsNamed ('/' :: rest) := by
  intro h
  refine (h [] ?_).1 rfl
  rw [← List.nil_append ('/' :: rest), splitOn_append_cons]
  exact List.mem_append_left _ (.head _)

theorem not_isNamed_of_slash_right (front : List Char) : ¬ IsNamed (front ++ ['/']) := by
  intro h
  refine (h [] ?_).1 rfl
  rw [splitOn_append_cons]
  exact List.mem_append_right _ (.head _)

theorem IsNamed.trimSlashes (h : IsNamed cs) : trimSlashes cs = cs := by
  have hleft : cs.dropWhile (· == '/') = cs := by
    cases cs with
    | nil => rfl
    | cons c rest =>
      refine List.dropWhile_cons_of_neg fun hc => ?_
      rw [beq_iff_eq.mp hc] at h
      exact not_isNamed_of_slash_left rest h
  rw [Path.trimSlashes, hleft]
  rcases List.eq_nil_or_concat cs with rfl | ⟨front, c, rfl⟩
  · rfl
  · rw [List.concat_eq_append] at h ⊢
    rw [List.reverse_append, List.reverse_singleton, List.singleton_append,
      List.dropWhile_cons_of_neg, List.reverse_cons, List.reverse_reverse]
    intro hc
    rw [beq_iff_eq.mp hc] at h
    exact not_isNamed_of_slash_right front h

/-- What `placeText` writes, if it writes names. -/
theorem placeText_cases (h : ∀ name ∈ names, IsName name ∧ '/' ∉ name) :
    names = [] ∧ placeText names = "." ∨
      splitOn '/' (placeText names).toList = names ∧ IsNamed (placeText names).toList := by
  by_cases hnil : names = []
  · exact Or.inl ⟨hnil, if_pos hnil⟩
  · have hsplit : splitOn '/' (placeText names).toList = names := by
      rw [placeText, if_neg hnil, String.toList_ofList, splitOn_join hnil fun p hp => (h p hp).2]
    refine Or.inr ⟨hsplit, fun piece hpiece => ?_⟩
    rw [hsplit] at hpiece
    exact (h piece hpiece).1

theorem isAbsolute_placeText (h : ∀ name ∈ names, IsName name ∧ '/' ∉ name) :
    isAbsolute (placeText names) = false := by
  rcases placeText_cases h with ⟨-, htext⟩ | ⟨-, hnamed⟩
  · rw [htext]
    rfl
  · refine Bool.eq_false_iff.mpr fun habsolute => ?_
    obtain ⟨rest, hrest⟩ := isAbsolute_iff.mp habsolute
    exact not_isNamed_of_slash_left rest (hrest ▸ hnamed)

/-- The text of a place leads to it. -/
theorem reduceFrom?_placeText (h : ∀ name ∈ names, IsName name ∧ '/' ∉ name) :
    reduceFrom? base (placeText names) = some (base ++ names) := by
  rcases placeText_cases h with ⟨rfl, htext⟩ | ⟨hsplit, -⟩
  · rw [htext, List.append_nil]
    rfl
  · rw [reduceFrom?, isAbsolute_placeText h, if_neg Bool.false_ne_true, reduce?, hsplit,
      foldlM_reduceStep?_of_isName fun p hp => (h p hp).1]

/-! ## Patterns of places -/

theorem pattern_of_isNamed {place : String} (h : IsNamed place.toList) :
    pattern place = "//" ++ place ++ "/..." := by
  rw [pattern, h.trimSlashes, String.ofList_toList]
  exact if_neg (not_or_intro h.ne_nil h.ne_dot)

/-- The pattern of the root is shorter than all others. -/
theorem pattern_root_ne {place : String} (h : IsNamed place.toList) :
    pattern "." ≠ pattern place := by
  intro heq
  rw [pattern_of_isNamed h] at heq
  have hlength : 5 = 2 + place.length + 4 := by
    have hroot : (pattern ".").length = 5 := by decide
    rw [← hroot, heq, String.length_append, String.length_append]
    rfl
  omega

theorem pattern_inj {place place' : String} (h : place = "." ∨ IsNamed place.toList)
    (h' : place' = "." ∨ IsNamed place'.toList) (heq : pattern place = pattern place') :
    place = place' := by
  rcases h with rfl | h
  · rcases h' with rfl | h'
    · rfl
    · exact absurd heq (pattern_root_ne h')
  · rcases h' with rfl | h'
    · exact absurd heq.symm (pattern_root_ne h)
    · rw [pattern_of_isNamed h, pattern_of_isNamed h'] at heq
      simpa using heq

end Path

namespace Workspace

variable {lake : Workspace} {target place : String}

/-- The root leads to one place, the target from there to another one, and what counts is the way
between the two. -/
theorem relative?_eq (h : isAbsolute lake.root = true) (target : String) :
    lake.relative? target = (reduce? [] lake.root.toList).bind fun base =>
      (reduceFrom? base target).bind fun full =>
        (below? (ofNames base) (ofNames full)).map relativeText := by
  rw [relative?, resolve?_eq h]
  cases hbase : reduce? [] lake.root.toList with
  | none => rfl
  | some base =>
    rw [resolve?_join h hbase, Option.bind_some]
    cases reduceFrom? base target with
    | none => rfl
    | some full =>
      exact Option.map_eq_bind.symm

/-- A lake gives a target the place where it leads, if this is at or below the root. -/
theorem relative?_eq_some_iff (h : isAbsolute lake.root = true) :
    lake.relative? target = some place ↔
      ∃ base names, reduce? [] lake.root.toList = some base ∧
        reduceFrom? base target = some (base ++ names) ∧ place = placeText names := by
  simp only [relative?_eq h, Option.bind_eq_some_iff, Option.map_eq_some_iff,
    below?_ofNames_iff]
  constructor
  · rintro ⟨base, hbase, full, hfull, steps, ⟨names, rfl, rfl⟩, rfl⟩
    exact ⟨base, names, hbase, hfull, relativeText_map_name names⟩
  · rintro ⟨base, names, hbase, hfull, rfl⟩
    exact ⟨base, hbase, _, hfull, _, ⟨names, rfl, rfl⟩, relativeText_map_name names⟩

/-- There is no place for a target if a path leads above `/`, or if the target leads to a place
that is not below the root. -/
theorem relative?_eq_none_iff (h : isAbsolute lake.root = true) :
    lake.relative? target = none ↔
      reduce? [] lake.root.toList = none ∨ ∃ base, reduce? [] lake.root.toList = some base ∧
        (reduceFrom? base target = none ∨
          ∃ full, reduceFrom? base target = some full ∧ ¬ base <+: full) := by
  rw [Option.eq_none_iff_forall_ne_some]
  constructor
  · intro hnone
    cases hroot : reduce? [] lake.root.toList with
    | none => exact Or.inl rfl
    | some base =>
      refine Or.inr ⟨base, rfl, ?_⟩
      cases hfull : reduceFrom? base target with
      | none => exact Or.inl rfl
      | some full =>
        refine Or.inr ⟨full, rfl, ?_⟩
        rintro ⟨names, rfl⟩
        exact hnone _ ((relative?_eq_some_iff h).mpr ⟨base, names, hroot, hfull, rfl⟩)
  · intro houtside place hplace
    obtain ⟨base, names, hroot, hnames, -⟩ := (relative?_eq_some_iff h).mp hplace
    rcases houtside with hnone | ⟨base', hroot', hrest⟩
    · exact nomatch hnone.symm.trans hroot
    · cases hroot'.symm.trans hroot
      rcases hrest with hnone | ⟨full, hfull, hprefix⟩
      · exact nomatch hnone.symm.trans hnames
      · cases hfull.symm.trans hnames
        exact hprefix (List.prefix_append base names)

/-- The names of the place of a target. -/
theorem isName_of_relative? {base names : List (List Char)}
    (hbase : reduce? [] lake.root.toList = some base)
    (hnames : reduceFrom? base target = some (base ++ names)) :
    ∀ name ∈ names, IsName name ∧ '/' ∉ name := by
  have hroot : ∀ name ∈ base, IsName name ∧ '/' ∉ name :=
    isName_of_reduce? (fun _ hname => absurd hname List.not_mem_nil) hbase
  have hall : ∀ name ∈ base ++ names, IsName name ∧ '/' ∉ name := by
    refine isName_of_reduce? ?_ hnames
    split
    · exact fun _ hname => absurd hname List.not_mem_nil
    · exact hroot
  exact fun name hname => hall name (List.mem_append_right base hname)

/-- The text of a place is in normal form. -/
theorem normal_of_relative? (h : isAbsolute lake.root = true)
    (hplace : lake.relative? target = some place) :
    (place = "." ∨ IsNamed place.toList) ∧ lake.relative? place = some place := by
  obtain ⟨base, names, hbase, hnames, rfl⟩ := (relative?_eq_some_iff h).mp hplace
  have hall := isName_of_relative? hbase hnames
  refine ⟨?_, (relative?_eq_some_iff h).mpr ⟨base, names, hbase, reduceFrom?_placeText hall, rfl⟩⟩
  rcases placeText_cases hall with ⟨-, htext⟩ | ⟨-, hnamed⟩
  · exact Or.inl htext
  · exact Or.inr hnamed

/-- **Places in a lake.**  A lake with an absolute root has no place for a target exactly if a path
leads above `/` or the target leads to a place outside the root; else it is the place where the
target leads.  The text of a place is `.` or has names only, it is its own place, and places with
the same pattern are the same. -/
theorem placed_of_isAbsolute (lake : Workspace) (h : isAbsolute lake.root = true)
    (target : String) :
    (lake.relative? target = none ↔
      reduce? [] lake.root.toList = none ∨ ∃ base, reduce? [] lake.root.toList = some base ∧
        (reduceFrom? base target = none ∨
          ∃ full, reduceFrom? base target = some full ∧ ¬ base <+: full)) ∧
    ∀ place, (lake.relative? target = some place ↔
        ∃ base names, reduce? [] lake.root.toList = some base ∧
          reduceFrom? base target = some (base ++ names) ∧ place = placeText names) ∧
      (lake.relative? target = some place →
        (place = "." ∨ ∀ piece ∈ splitOn '/' place.toList, IsName piece) ∧
        lake.relative? place = some place ∧
        ∀ target' place', lake.relative? target' = some place' → place ≠ place' →
          pattern place ≠ pattern place') := by
  refine ⟨relative?_eq_none_iff h, fun place => ⟨relative?_eq_some_iff h, fun hplace => ?_⟩⟩
  obtain ⟨hnormal, hself⟩ := normal_of_relative? h hplace
  refine ⟨hnormal, hself, fun target' place' hplace' hne => ?_⟩
  exact mt (pattern_inj hnormal (normal_of_relative? h hplace').1) hne

/-- A target that goes up and down again in a lake whose root does so as well, and one that goes up
above it. -/
theorem placed_of_detour :
    ∃ lake : Workspace, isAbsolute lake.root = true ∧ lake.root = "/lakes/./x/../acme/" ∧
      lake.relative? "a//b/../c/." = some "a/c" ∧ lake.relative? "a/c" = some "a/c" ∧
      pattern "a/c" ≠ pattern "." ∧ lake.relative? "../other" = none := by
  have hroot : isAbsolute "/lakes/./x/../acme/" = true := by decide
  have hbase : reduce? [] "/lakes/./x/../acme/".toList =
      some ["lakes".toList, "acme".toList] := by decide
  have hlake := placed_of_isAbsolute { root := "/lakes/./x/../acme/" } hroot
  obtain ⟨hplaced, hnormal⟩ := (hlake "a//b/../c/.").2 "a/c"
  have hplace := hplaced.mpr ⟨_, [['a'], ['c']], hbase, by decide, by decide⟩
  obtain ⟨-, hself, hpattern⟩ := hnormal hplace
  have hhere := ((hlake ".").2 ".").1.mpr ⟨_, [], hbase, by decide, rfl⟩
  have houtside := (hlake "../other").1.mpr
    (Or.inr ⟨_, hbase, Or.inr ⟨["lakes".toList, "other".toList], by decide, by decide⟩⟩)
  exact ⟨_, hroot, rfl, hplace, hself, hpattern _ _ hhere (by decide), houtside⟩

end Workspace
end ProtoBuild
