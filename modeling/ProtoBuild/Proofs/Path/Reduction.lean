import ProtoBuild.Path
import ProtoBuild.Proofs.Text.Pieces

/-!
# Where a path leads

The pieces of a path between its slashes are read one after another, and each leads from one place
to the next: a name down, `..` up, an empty piece and `.` nowhere (`reduceStep?`).  A place is the
list of the names that lead to it from `/`, so that nothing is said of components, of the `/` that
a path begins with or of the order in which `resolve?` holds what it keeps.

`resolve?_eq` says that an absolute path is resolved to the place where it leads, and
`reduce?_join` that a path below another leads there from the place of the other.
-/

namespace ProtoBuild
namespace Path

open Text

variable {kept place pieces : List (List Char)} {piece cs : List Char} {path base child : String}
  {top : List Component}

/-! ## Places -/

/-- A piece of a path that leads down. -/
def IsName (piece : List Char) : Prop :=
  piece ≠ [] ∧ piece ≠ ['.'] ∧ piece ≠ ['.', '.']

/-- Where a piece of a path leads from a place. -/
def reduceStep? (kept : List (List Char)) (piece : List Char) : Option (List (List Char)) :=
  if piece = [] ∨ piece = ['.'] then some kept
  else if piece = ['.', '.'] then
    if kept = [] then none else some kept.dropLast
  else some (kept ++ [piece])

/-- Where the pieces of a path lead from a place, if they do not lead above `/`. -/
def reduce? (kept : List (List Char)) (cs : List Char) : Option (List (List Char)) :=
  (splitOn '/' cs).foldlM reduceStep? kept

/-- Where a path leads, which is taken from a place unless it is absolute. -/
def reduceFrom? (kept : List (List Char)) (path : String) : Option (List (List Char)) :=
  reduce? (if isAbsolute path then [] else kept) path.toList

theorem reduceStep?_of_isName (h : IsName piece) :
    reduceStep? kept piece = some (kept ++ [piece]) := by
  rw [reduceStep?, if_neg (not_or_intro h.1 h.2.1), if_neg h.2.2]

/-- Names lead down. -/
theorem foldlM_reduceStep?_of_isName (h : ∀ piece ∈ pieces, IsName piece) :
    pieces.foldlM reduceStep? kept = some (kept ++ pieces) := by
  induction pieces generalizing kept with
  | nil => rw [List.foldlM_nil, List.append_nil, Option.pure_def]
  | cons piece pieces ih =>
    rw [List.foldlM_cons, reduceStep?_of_isName (h piece List.mem_cons_self),
      Option.bind_eq_bind, Option.bind_some, ih fun p hp => h p (List.mem_cons_of_mem piece hp),
      List.append_assoc, List.singleton_append]

/-- A step keeps what holds of the names so far and of the piece, if this is a name. -/
theorem reduceStep?_forall {P : List Char → Prop} (hkept : ∀ name ∈ kept, P name)
    (hpiece : IsName piece → P piece) (h : reduceStep? kept piece = some place) :
    ∀ name ∈ place, P name := by
  rw [reduceStep?] at h
  split at h
  · cases h
    exact hkept
  · rename_i hdot
    split at h
    · split at h
      · exact nomatch h
      · cases h
        exact fun name hname => hkept name ((List.dropLast_sublist kept).subset hname)
    · rename_i hparent
      cases h
      intro name hname
      rcases List.mem_append.mp hname with hname | hname
      · exact hkept name hname
      · rw [List.mem_singleton.mp hname]
        exact hpiece ⟨(not_or.mp hdot).1, (not_or.mp hdot).2, hparent⟩

theorem foldlM_reduceStep?_forall {P : List Char → Prop} (hkept : ∀ name ∈ kept, P name)
    (hpieces : ∀ piece ∈ pieces, IsName piece → P piece)
    (h : pieces.foldlM reduceStep? kept = some place) : ∀ name ∈ place, P name := by
  induction pieces generalizing kept with
  | nil =>
    cases h
    exact hkept
  | cons piece pieces ih =>
    rw [List.foldlM_cons] at h
    obtain ⟨next, hstep, hrest⟩ := Option.bind_eq_some_iff.mp h
    exact ih (reduceStep?_forall hkept (hpieces piece List.mem_cons_self) hstep)
      (fun p hp => hpieces p (List.mem_cons_of_mem piece hp)) hrest

/-- A place that a path leads to has names without slashes. -/
theorem isName_of_reduce? (hkept : ∀ name ∈ kept, IsName name ∧ '/' ∉ name)
    (h : reduce? kept cs = some place) : ∀ name ∈ place, IsName name ∧ '/' ∉ name :=
  foldlM_reduceStep?_forall hkept (fun _ hpiece hname => ⟨hname, not_mem_of_mem_splitOn hpiece⟩) h

/-! ## Components of a place -/

/-- The components of the path that leads to a place. -/
def ofNames (kept : List (List Char)) : List Component :=
  .root :: kept.map .name

/-- What `resolve?` keeps at a place, above what the path begins with. -/
def stack (top : List Component) (kept : List (List Char)) : List Component :=
  (kept.map .name).reverse ++ top

theorem stack_concat (top : List Component) (kept : List (List Char)) (name : List Char) :
    stack top (kept ++ [name]) = .name name :: stack top kept := by
  simp [stack]

theorem reverse_stack_root (kept : List (List Char)) :
    (stack [.root] kept).reverse = ofNames kept := by
  simp [stack, ofNames]

theorem reverse_stack_nil (kept : List (List Char)) :
    (stack [] kept).reverse = kept.map .name := by
  simp [stack]

/-- One step on components, if there is one, is one step on names. -/
theorem foldlM_stepOf? (htop : resolveStep? top .parent = none) (kept : List (List Char))
    (piece : List Char) :
    (stepOf? piece).toList.foldlM resolveStep? (stack top kept) =
      (reduceStep? kept piece).map (stack top) := by
  by_cases hstay : piece = [] ∨ piece = ['.']
  · rw [stepOf?, if_pos hstay, reduceStep?, if_pos hstay]
    rfl
  · by_cases hup : piece = ['.', '.']
    · rw [stepOf?, if_neg hstay, if_pos hup, reduceStep?, if_neg hstay, if_pos hup]
      rcases List.eq_nil_or_concat kept with rfl | ⟨front, name, rfl⟩
      · show (resolveStep? top .parent).bind some = none
        rw [htop, Option.bind_none]
      · have hne : front ++ [name] ≠ [] := List.concat_ne_nil name front
        rw [List.concat_eq_append, stack_concat, if_neg hne, List.dropLast_concat]
        rfl
    · rw [stepOf?, if_neg hstay, if_neg hup, reduceStep?, if_neg hstay, if_neg hup,
        Option.map_some, stack_concat]
      rfl

theorem foldlM_filterMap_stepOf? (htop : resolveStep? top .parent = none)
    (kept pieces : List (List Char)) :
    (pieces.filterMap stepOf?).foldlM resolveStep? (stack top kept) =
      (pieces.foldlM reduceStep? kept).map (stack top) := by
  induction pieces generalizing kept with
  | nil => rfl
  | cons piece pieces ih =>
    have hcons : (piece :: pieces).filterMap stepOf? =
        (stepOf? piece).toList ++ pieces.filterMap stepOf? := by
      rw [List.filterMap_cons]
      cases stepOf? piece <;> rfl
    rw [hcons, List.foldlM_append, List.foldlM_cons, foldlM_stepOf? htop]
    cases reduceStep? kept piece with
    | none => rfl
    | some place => exact ih place

/-- An absolute path is resolved to the place where it leads. -/
theorem resolve?_eq (h : isAbsolute path = true) :
    resolve? path = (reduce? [] path.toList).map ofNames := by
  rw [resolve?, components, if_pos h]
  show Option.map List.reverse (List.foldlM resolveStep? (stack [.root] []) _) = _
  rw [foldlM_filterMap_stepOf? rfl, reduce?, Option.map_map]
  congr 1
  funext place
  exact reverse_stack_root place

/-- A relative path is resolved to the names by which it leads on. -/
theorem resolve?_eq_of_relative (h : isAbsolute path = false) :
    resolve? path = (reduce? [] path.toList).map (List.map .name) := by
  have hsteps : (components path).foldlM resolveStep? (stack [] []) =
      ((splitOn '/' path.toList).filterMap stepOf?).foldlM resolveStep? (stack [] []) := by
    rw [components, if_neg (Bool.eq_false_iff.mp h)]
    split
    · rfl
    · rfl
  rw [resolve?]
  show Option.map List.reverse (List.foldlM resolveStep? (stack [] []) _) = _
  rw [hsteps, foldlM_filterMap_stepOf? rfl, reduce?, Option.map_map]
  congr 1
  funext place
  exact reverse_stack_nil place

/-! ## Paths below others -/

theorem reduce?_append_cons (kept : List (List Char)) (cs ds : List Char) :
    reduce? kept (cs ++ '/' :: ds) = (reduce? kept cs).bind fun place => reduce? place ds := by
  rw [reduce?, splitOn_append_cons, List.foldlM_append]
  rfl

theorem isAbsolute_iff : isAbsolute path = true ↔ ∃ rest, path.toList = '/' :: rest := by
  rw [isAbsolute, beq_iff_eq, List.head?_eq_some_iff]

theorem isEmpty_of_isAbsolute (h : isAbsolute path = true) : path.isEmpty = false := by
  refine String.isEmpty_eq_false_iff.mpr fun hempty => ?_
  rw [hempty] at h
  exact nomatch h

/-- The first character of a path stays the first one. -/
theorem isAbsolute_append (hbase : base ≠ "") (rest : String) :
    isAbsolute (base ++ rest) = isAbsolute base := by
  obtain ⟨c, cs, hcs⟩ := List.exists_cons_of_ne_nil (mt String.toList_eq_nil_iff.mp hbase)
  rw [isAbsolute, isAbsolute, String.toList_append, hcs, List.cons_append, List.head?_cons,
    List.head?_cons]

/-- There is one slash between a path and what is below it, even if the path ends in a slash. -/
theorem toList_join (hbase : base ≠ "") (hchild : isAbsolute child = false) :
    ∃ front, (base.toList = front ∨ base.toList = front ++ ['/']) ∧
      (join base child).toList = front ++ '/' :: child.toList := by
  rw [join, hchild, String.isEmpty_eq_false_iff.mpr hbase, Bool.false_or,
    if_neg Bool.false_ne_true]
  split
  · rename_i hslash
    obtain ⟨front, hfront⟩ := List.getLast?_eq_some_iff.mp (beq_iff_eq.mp hslash)
    refine ⟨front, Or.inr hfront, ?_⟩
    rw [String.toList_append, hfront, List.append_assoc, List.singleton_append]
  · refine ⟨base.toList, Or.inl rfl, ?_⟩
    rw [String.toList_append, String.toList_append, List.append_assoc]
    rfl

theorem reduce?_join (kept : List (List Char)) (hbase : base ≠ "")
    (hchild : isAbsolute child = false) :
    reduce? kept (join base child).toList =
      (reduce? kept base.toList).bind fun place => reduce? place child.toList := by
  obtain ⟨front, hfront, hjoin⟩ := toList_join hbase hchild
  rw [hjoin, reduce?_append_cons]
  rcases hfront with hfront | hfront
  · rw [hfront]
  · rw [hfront, reduce?_append_cons kept front []]
    cases reduce? kept front <;> rfl

theorem isAbsolute_join (hbase : isAbsolute base = true) : isAbsolute (join base child) = true := by
  have hempty := isEmpty_of_isAbsolute hbase
  have hne := String.isEmpty_eq_false_iff.mp hempty
  rw [join, hempty, Bool.or_false]
  split
  · assumption
  · split
    · rw [isAbsolute_append hne, hbase]
    · rw [String.append_assoc, isAbsolute_append hne, hbase]

/-- A path below an absolute one leads where it leads from the place of the other. -/
theorem resolve?_join {place : List (List Char)} (hbase : isAbsolute base = true)
    (hplace : reduce? [] base.toList = some place) :
    resolve? (join base child) = (reduceFrom? place child).map ofNames := by
  rw [resolve?_eq (isAbsolute_join hbase), reduceFrom?]
  cases hchild : isAbsolute child with
  | true => rw [join, hchild, Bool.true_or, if_pos rfl, if_pos rfl]
  | false =>
    have hne : base ≠ "" := String.isEmpty_eq_false_iff.mp (isEmpty_of_isAbsolute hbase)
    rw [reduce?_join [] hne hchild, hplace, Option.bind_some, if_neg Bool.false_ne_true]

end Path
end ProtoBuild
