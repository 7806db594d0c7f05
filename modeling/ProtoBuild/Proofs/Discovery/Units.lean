import Mathlib.Data.List.Nodup
import Mathlib.Data.String.Basic
import ProtoBuild.Discovery
import ProtoBuild.Proofs.Directory.Trees
import ProtoBuild.Proofs.Text.ByteOrder

/-!
# The units of a directory

`IsUnitAt` says what a unit of a directory is: a way down through directories that are not hidden,
to one that has the marker for a file.  It does not say in which order one looks.
`mem_units_iff` and `nodup_units` say that looking finds the units, and each of them once.

A unit is listed by the path that its way from the root shows as, wherever the search begins
(`unitPath?_eq`), so a list of units has one path for each of them (`perm_unitPaths`).  Ways with
names that are no texts may show as the same path, and then it is listed once for each of them.  If
all names are texts, the paths are different ones (`pairwise_unitPaths`).  From the list of a lake
one can pick the units of a directory by their paths, unless units that lie elsewhere show as if
they lay there (`unitPaths_eq_filter`).
-/

namespace ProtoBuild
namespace Discovery

open Directory ProtoBuild.Path Text
open scoped List

variable {d inside rest sub : Directory} {name : FileName} {below place found : List FileName}
  {content : List UInt8} {root unit : String} {names texts : List String}

/-! ## Where a directory has units -/

/-- Whether a directory below another one is entered, seen from that one. -/
def isOpen (name : FileName) : Bool :=
  ! isHidden name

/-- Whether names lead to a unit. -/
def IsUnitAt (d : Directory) (below : List FileName) : Prop :=
  ∃ sub content, d.Enters isOpen below sub ∧ sub.get? marker = some (.file content)

theorem isUnitAt_nil_iff : IsUnitAt d [] ↔ ∃ content, d.get? marker = some (.file content) := by
  simp [IsUnitAt]

/-- A file makes its directory a unit, if it is the marker. -/
theorem isUnitAt_file_iff (hrest : d.get? name = none) :
    IsUnitAt (file name content d) below ↔ name = marker ∧ below = [] ∨ IsUnitAt d below := by
  cases below with
  | nil =>
    rw [isUnitAt_nil_iff, isUnitAt_nil_iff, get?]
    split <;> simp_all
  | cons first below =>
    have hne := List.cons_ne_nil first below
    simp only [IsUnitAt, enters_file_iff hrest hne, hne, and_false, false_or]

/-- A directory has the units of its entries. -/
theorem isUnitAt_folder_iff (hrest : d.get? name = none) :
    IsUnitAt (folder name inside d) below ↔
      (∃ more, below = name :: more ∧ isOpen name = true ∧ IsUnitAt inside more) ∨
        IsUnitAt d below := by
  cases below with
  | nil =>
    rw [isUnitAt_nil_iff, isUnitAt_nil_iff, get?]
    split <;> simp_all
  | cons first below =>
    have hne := List.cons_ne_nil first below
    simp only [IsUnitAt, enters_folder_iff hrest hne]
    constructor
    · rintro ⟨sub, content, ⟨more, hmore, hopen, henters⟩ | henters, hmarker⟩
      · exact Or.inl ⟨more, hmore, hopen, sub, content, henters, hmarker⟩
      · exact Or.inr ⟨sub, content, henters, hmarker⟩
    · rintro (⟨more, hmore, hopen, sub, content, henters, hmarker⟩ |
        ⟨sub, content, henters, hmarker⟩)
      · exact ⟨sub, content, Or.inl ⟨more, hmore, hopen, henters⟩, hmarker⟩
      · exact ⟨sub, content, Or.inr henters, hmarker⟩

/-- Nothing below a directory that is not there is a unit. -/
theorem not_isUnitAt_cons (h : d.get? name = none) : ¬ IsUnitAt d (name :: below) := by
  rintro ⟨sub, content, henters, -⟩
  obtain ⟨-, inside, hget, -⟩ := enters_cons_iff.mp henters
  exact nomatch h.symm.trans hget

/-- The units of a directory that is entered are units of the directory it is entered from. -/
theorem isUnitAt_append_iff (h : d.Enters isOpen place inside) :
    IsUnitAt d (place ++ below) ↔ IsUnitAt inside below := by
  simp only [IsUnitAt, enters_append_iff]
  constructor
  · rintro ⟨sub, content, ⟨other, hother, henters⟩, hmarker⟩
    cases h.1.symm.trans hother.1
    exact ⟨sub, content, henters, hmarker⟩
  · rintro ⟨sub, content, henters, hmarker⟩
    exact ⟨sub, content, ⟨inside, h, henters⟩, hmarker⟩

/-- To have units at the same places it is enough to have the same files there. -/
theorem isUnitAt_iff :
    IsUnitAt d below ↔ (∀ name ∈ below, isOpen name = true) ∧
      ∃ content, d.at? (below ++ [marker]) = some (.file content) := by
  simp only [IsUnitAt, Enters, at?_concat_eq_file_iff]
  constructor
  · rintro ⟨sub, content, ⟨hsub, hopen⟩, hmarker⟩
    exact ⟨hopen, content, sub, hsub, hmarker⟩
  · rintro ⟨hopen, content, sub, hsub, hmarker⟩
    exact ⟨sub, content, ⟨hsub, hopen⟩, hmarker⟩

/-! ## Looking for them -/

theorem mem_units_iff (htree : d.IsTree) :
    found ∈ units place d ↔ ∃ below, found = place ++ below ∧ IsUnitAt d below := by
  induction d generalizing place with
  | empty =>
    refine iff_of_false List.not_mem_nil ?_
    rintro ⟨below, -, hunit⟩
    cases below with
    | nil => exact nomatch (isUnitAt_nil_iff.mp hunit).choose_spec
    | cons name below => exact not_isUnitAt_cons rfl hunit
  | file name content rest ih =>
    simp only [isUnitAt_file_iff htree.2.1, and_or_left, exists_or, ← ih htree.2.2]
    rw [units]
    split
    · rename_i hmarker
      simp [hmarker]
    · rename_i hmarker
      simp [hmarker]
  | folder name inside rest ihinside ihrest =>
    simp only [isUnitAt_folder_iff htree.2.1, and_or_left, exists_or, ← ihrest htree.2.2.2]
    rw [units]
    split
    · rename_i hhidden
      simp [isOpen, hhidden]
    · rename_i hhidden
      rw [List.mem_append, ihinside htree.2.2.1]
      refine or_congr_left ?_
      constructor
      · rintro ⟨more, rfl, hunit⟩
        refine ⟨name :: more, ?_, more, rfl, ?_, hunit⟩
        · rw [List.append_assoc, List.singleton_append]
        · simp [isOpen, hhidden]
      · rintro ⟨below, rfl, more, rfl, -, hunit⟩
        exact ⟨more, List.append_cons place name more, hunit⟩

theorem mem_units_nil_iff (htree : d.IsTree) : below ∈ units [] d ↔ IsUnitAt d below := by
  rw [mem_units_iff htree]
  simp

/-- No unit is found twice. -/
theorem nodup_units (htree : d.IsTree) (place : List FileName) : (units place d).Nodup := by
  induction d generalizing place with
  | empty => exact List.nodup_nil
  | file name content rest ih =>
    rw [units]
    split
    · rename_i hmarker
      refine List.nodup_cons.mpr ⟨fun hmem => ?_, ih htree.2.2 place⟩
      obtain ⟨below, hplace, hunit⟩ := (mem_units_iff htree.2.2).mp hmem
      obtain rfl := List.append_right_eq_self.mp hplace.symm
      obtain ⟨other, hother⟩ := isUnitAt_nil_iff.mp hunit
      exact nomatch (hmarker ▸ htree.2.1).symm.trans hother
    · exact ih htree.2.2 place
  | folder name inside rest ihinside ihrest =>
    rw [units]
    split
    · exact ihrest htree.2.2.2 place
    · refine List.nodup_append.mpr
        ⟨ihinside htree.2.2.1 _, ihrest htree.2.2.2 place, fun first hfirst second hsecond => ?_⟩
      rintro rfl
      obtain ⟨more, rfl, -⟩ := (mem_units_iff htree.2.2.1).mp hfirst
      obtain ⟨below, hbelow, hunit⟩ := (mem_units_iff htree.2.2.2).mp hsecond
      rw [List.append_assoc, List.append_right_inj, List.singleton_append] at hbelow
      subst hbelow
      exact not_isUnitAt_cons htree.2.1 hunit

/-! ## Paths of places -/

/-- The path of a place in a lake, relative to its root. -/
def pathText (names : List String) : String :=
  placeText (names.map String.toList)

/-- Names that lead to a place in a lake. -/
def AreNames (names : List String) : Prop :=
  ∀ name ∈ names, IsName name.toList ∧ '/' ∉ name.toList

instance (names : List String) : Decidable (AreNames names) := by
  unfold AreNames IsName
  infer_instance

theorem areNames_nil : AreNames [] :=
  fun _ hname => absurd hname List.not_mem_nil

theorem AreNames.append {more : List String} (h : AreNames names) (hmore : AreNames more) :
    AreNames (names ++ more) := by
  intro name hname
  rcases List.mem_append.mp hname with hname | hname
  · exact h name hname
  · exact hmore name hname

theorem areNames_of_at? (htree : d.IsTree)
    (h : d.at? (FileName.ofTexts names) = some (.folder sub)) : AreNames names := by
  intro name hname
  exact isName_of_isEntryName (isEntryName_of_at? htree h _ (List.mem_map_of_mem hname))

theorem areNames_of_isUnitAt (htree : d.IsTree) (h : IsUnitAt d (FileName.ofTexts names)) :
    AreNames names := by
  obtain ⟨sub, content, henters, -⟩ := h
  exact areNames_of_at? htree henters.1

theorem AreNames.isName (h : AreNames names) :
    ∀ piece ∈ names.map String.toList, IsName piece ∧ '/' ∉ piece := by
  rintro piece hpiece
  obtain ⟨name, hname, rfl⟩ := List.mem_map.mp hpiece
  exact h name hname

theorem map_toList_injective : Function.Injective (List.map String.toList) :=
  List.map_injective_iff.mpr fun _ _ => String.toList_injective

/-- Places with the same path are the same. -/
theorem AreNames.pathText_inj (h : AreNames names) (htexts : AreNames texts)
    (heq : pathText names = pathText texts) : names = texts := by
  have hnames := @reduceFrom?_placeText [] _ h.isName
  rw [show placeText (names.map String.toList) = pathText texts from heq, pathText,
    reduceFrom?_placeText htexts.isName] at hnames
  exact (map_toList_injective (Option.some.inj hnames)).symm

theorem AreNames.pathText_ne (h : AreNames names) (hnames : names ≠ []) : pathText names ≠ "." := by
  intro hdot
  exact hnames (h.pathText_inj areNames_nil hdot)

theorem AreNames.slash_not_mem (h : AreNames names) : ∀ name ∈ names, '/' ∉ name.toList :=
  fun name hname => (h name hname).2

/-- The pieces of the path of a place below the root are its names. -/
theorem splitOn_pathText (h : ∀ name ∈ names, '/' ∉ name.toList) (hnames : names ≠ []) :
    splitOn '/' (pathText names).toList = names.map String.toList := by
  have hpieces : names.map String.toList ≠ [] := mt List.map_eq_nil_iff.mp hnames
  rw [pathText, placeText, if_neg hpieces, String.toList_ofList, splitOn_join hpieces]
  intro piece hpiece
  obtain ⟨name, hname, rfl⟩ := List.mem_map.mp hpiece
  exact h name hname

theorem AreNames.isNamed_pathText (h : AreNames names) (hnames : names ≠ []) :
    IsNamed (pathText names).toList := by
  intro piece hpiece
  rw [splitOn_pathText h.slash_not_mem hnames] at hpiece
  exact (h.isName piece hpiece).1

/-- The path of a place below another one begins with the path of the other. -/
theorem pathText_append (h : ∀ name ∈ names ++ texts, '/' ∉ name.toList) (hnames : names ≠ [])
    (htexts : texts ≠ []) :
    pathText (names ++ texts) = pathText names ++ "/" ++ pathText texts := by
  obtain ⟨hfront, hrest⟩ := List.forall_mem_append.mp h
  -- texts with the same pieces are the same
  refine String.toList_injective ?_
  rw [← join_splitOn '/' (pathText (names ++ texts)).toList,
    splitOn_pathText h (List.append_ne_nil_of_left_ne_nil hnames texts), List.map_append,
    ← splitOn_pathText hfront hnames, ← splitOn_pathText hrest htexts, ← splitOn_append_cons,
    join_splitOn, String.toList_append, String.toList_append, List.append_assoc]
  rfl

theorem AreNames.isAbsolute_pathText (h : AreNames names) :
    isAbsolute (pathText names) = false :=
  isAbsolute_placeText h.isName

theorem components_join {base child : String} (hbase : isAbsolute base = true)
    (hchild : isAbsolute child = false) :
    components (Path.join base child) =
      components base ++ (splitOn '/' child.toList).filterMap stepOf? := by
  have hne : base ≠ "" := String.isEmpty_eq_false_iff.mp (isEmpty_of_isAbsolute hbase)
  obtain ⟨front, hfront, hjoin⟩ := toList_join hne hchild
  rw [components, components, if_pos (isAbsolute_join hbase), if_pos hbase, List.cons_append,
    ← List.filterMap_append, hjoin, splitOn_append_cons]
  rcases hfront with hfront | hfront
  · rw [hfront]
  · -- the piece after the last slash is empty and no component
    rw [hfront, splitOn_append_cons]
    simp [splitOn, splitWhere, stepOf?]

/-- A search begins at the place that it is for. -/
theorem components_startOf (hroot : isAbsolute root = true) (h : AreNames names) :
    components (startOf root (pathText names)) =
      components root ++ names.map fun name => .name name.toList := by
  by_cases hnames : names = []
  · subst hnames
    exact (List.append_nil _).symm
  · rw [startOf, if_neg (h.pathText_ne hnames), components_join hroot h.isAbsolute_pathText,
      splitOn_pathText h.slash_not_mem hnames, List.filterMap_map]
    congr 1
    refine (List.filterMap_congr fun name hname => ?_).trans (congrFun List.filterMap_eq_map _)
    obtain ⟨hname, -⟩ := h name hname
    show stepOf? name.toList = some (.name name.toList)
    rw [stepOf?, if_neg (not_or_intro hname.1 hname.2.1), if_neg hname.2.2]

theorem stepsOf_startOf (hroot : isAbsolute root = true) (h : AreNames names) :
    stepsOf (startOf root (pathText names)) = stepsOf root ++ FileName.ofTexts names := by
  rw [stepsOf, components_startOf hroot h, List.map_append, List.map_map, ← stepsOf,
    FileName.ofTexts]
  congr 1
  refine List.map_congr_left fun name _ => ?_
  exact congrArg Utf8.encode String.ofList_toList

/-! ## Paths of units -/

/-- Whether names are texts in UTF-8. -/
def AreTexts (place : List FileName) : Prop :=
  ∃ texts, FileName.ofTexts texts = place

/-- Whether all directories have texts as names. -/
def HasTextNames : Directory → Prop
  | .empty => True
  | .file _ _ rest => HasTextNames rest
  | .folder name inside rest =>
    (∃ text, Utf8.encode text = name) ∧ HasTextNames inside ∧ HasTextNames rest

theorem hasTextNames_of_get? (h : HasTextNames d) (hget : d.get? name = some (.folder inside)) :
    (∃ text, Utf8.encode text = name) ∧ HasTextNames inside := by
  induction d with
  | empty => cases hget
  | file other content rest ih =>
    rw [get?] at hget
    split at hget
    · cases hget
    · exact ih h hget
  | folder other sub rest _ ih =>
    rw [get?] at hget
    split at hget
    · rename_i heq
      cases hget
      exact heq ▸ ⟨h.1, h.2.1⟩
    · exact ih h.2.2 hget

theorem areTexts_of_at? (h : HasTextNames d) (hsub : d.at? below = some (.folder sub)) :
    AreTexts below := by
  induction below generalizing d with
  | nil => exact ⟨[], rfl⟩
  | cons name below ih =>
    obtain ⟨inside, hget, hbelow⟩ := at?_cons_eq_folder_iff.mp hsub
    obtain ⟨⟨text, rfl⟩, hinside⟩ := hasTextNames_of_get? h hget
    obtain ⟨texts, rfl⟩ := ih hinside hbelow
    exact ⟨text :: texts, rfl⟩

theorem areTexts_of_isUnitAt (h : HasTextNames d) (hunit : IsUnitAt d below) : AreTexts below := by
  obtain ⟨sub, content, henters, -⟩ := hunit
  exact areTexts_of_at? h henters.1

/-- A name that is a text shows as that text. -/
@[simp] theorem text_encode (text : String) : FileName.text (Utf8.encode text) = text := by
  rw [FileName.text, Utf8.decodeLossy_encode, String.ofList_toList]

theorem map_text_ofTexts (texts : List String) :
    (FileName.ofTexts texts).map FileName.text = texts := by
  rw [FileName.ofTexts, List.map_map]
  exact (List.map_congr_left fun text _ => text_encode text).trans (List.map_id texts)

/-- A text cannot have a slash that the name does not have. -/
theorem slash_not_mem_text {name : FileName} (h : slash ∉ name) : '/' ∉ name.text.toList := by
  rw [FileName.text, String.toList_ofList]
  exact mt Utf8.slash_mem_of_mem_decodeLossy h

theorem shown_eq (steps : List FileName) : shown steps = pathText (steps.map FileName.text) := by
  cases steps with
  | nil => rfl
  | cons step steps =>
    have hpieces : ((step :: steps).map FileName.text).map String.toList ≠ [] :=
      List.cons_ne_nil _ _
    rw [shown, List.isEmpty_cons, if_neg Bool.false_ne_true, joinStrings, pathText, placeText,
      if_neg hpieces]

/-- What is a text shows as that text. -/
theorem shown_ofTexts (texts : List String) : shown (FileName.ofTexts texts) = pathText texts := by
  rw [shown_eq, map_text_ofTexts]

/-- A unit is listed by its way from the root. -/
theorem unitPath?_eq (hroot : isAbsolute root = true) (h : AreNames names)
    (below : List FileName) :
    unitPath? root (startOf root (pathText names)) below =
      some (shown (FileName.ofTexts names ++ below)) := by
  have hbelow : below? (stepsOf root) (stepsOf root ++ (FileName.ofTexts names ++ below)) =
      some (FileName.ofTexts names ++ below) :=
    below?_eq_some_iff.mpr rfl
  rw [unitPath?, stepsOf_startOf hroot h, List.append_assoc, hbelow, Option.map_some]

/-- There is one path for each unit. -/
theorem perm_unitPaths (hroot : isAbsolute root = true) (h : AreNames names) (d : Directory) :
    (unitPaths root (startOf root (pathText names)) d).Perm
      ((units [] d).map fun below => shown (FileName.ofTexts names ++ below)) := by
  have hpaths : (units [] d).filterMap (unitPath? root (startOf root (pathText names))) =
      (units [] d).map fun below => shown (FileName.ofTexts names ++ below) :=
    (List.filterMap_congr fun below _ => unitPath?_eq hroot h below).trans
      (congrFun List.filterMap_eq_map _)
  rw [unitPaths, hpaths]
  exact List.mergeSort_perm _ _

/-- Units are listed in the order of their paths. -/
theorem pairwise_le_unitPaths (root start : String) (d : Directory) :
    (unitPaths root start d).Pairwise (· ≤ ·) := by
  have hsorted := @List.pairwise_mergeSort _ (fun a b : String => decide (a ≤ b))
    (by simpa using fun a b c => @String.le_trans a b c) (by simpa using String.le_total)
    ((units [] d).filterMap (unitPath? root start))
  exact hsorted.imp of_decide_eq_true

/-- Units whose names are texts are listed each once. -/
theorem pairwise_unitPaths (hroot : isAbsolute root = true) (h : AreNames names)
    (htree : d.IsTree) (htexts : ∀ below, IsUnitAt d below → AreTexts below) :
    (unitPaths root (startOf root (pathText names)) d).Pairwise (· < ·) := by
  have hnodup : ((units [] d).map fun below => shown (FileName.ofTexts names ++ below)).Nodup := by
    refine List.Nodup.map_on (fun first hfirst second hsecond heq => ?_)
      (nodup_units htree [])
    have hunit := (mem_units_nil_iff htree).mp hfirst
    have hunit' := (mem_units_nil_iff htree).mp hsecond
    obtain ⟨texts, rfl⟩ := htexts _ hunit
    obtain ⟨texts', rfl⟩ := htexts _ hunit'
    simp only [← FileName.ofTexts_append, shown_ofTexts] at heq ⊢
    have hall := (h.append (areNames_of_isUnitAt htree hunit)).pathText_inj
      (h.append (areNames_of_isUnitAt htree hunit')) heq
    rw [List.append_cancel_left hall]
  have hdistinct := (perm_unitPaths hroot h d).nodup_iff.mpr hnodup
  refine ((pairwise_le_unitPaths root _ d).and hdistinct).imp fun hpair => ?_
  exact lt_of_le_of_ne hpair.1 hpair.2

/-- Units that show as the same path are listed as often as there are such units. -/
theorem not_nodup_unitPaths (hroot : isAbsolute root = true) (h : AreNames names)
    (htree : d.IsTree) (hunit : IsUnitAt d below) (hunit' : IsUnitAt d place)
    (hne : below ≠ place)
    (hshown : shown (FileName.ofTexts names ++ below) = shown (FileName.ofTexts names ++ place)) :
    ¬ (unitPaths root (startOf root (pathText names)) d).Nodup := by
  rw [(perm_unitPaths hroot h d).nodup_iff]
  intro hnodup
  refine hne (List.inj_on_of_nodup_map hnodup ?_ ?_ hshown)
  · exact (mem_units_nil_iff htree).mpr hunit
  · exact (mem_units_nil_iff htree).mpr hunit'

/-- One path begins with another and a slash exactly if it is the path of a place below it. -/
theorem prefix_pathText_iff (h : AreNames names) (htexts : ∀ text ∈ texts, '/' ∉ text.toList)
    (hnames : names ≠ []) :
    (pathText texts = pathText names ∨
      (pathText names).toList ++ ['/'] <+: (pathText texts).toList) ↔ names <+: texts := by
  have hsplit := splitOn_pathText h.slash_not_mem hnames
  constructor
  · rintro (heq | ⟨rest, hrest⟩)
    · have hne : texts ≠ [] := by
        rintro rfl
        exact h.pathText_ne hnames heq.symm
      rw [← heq, splitOn_pathText htexts hne] at hsplit
      obtain rfl := map_toList_injective hsplit
      exact List.prefix_rfl
    · have hne : texts ≠ [] := by
        rintro rfl
        have hslash : '/' ∈ (pathText []).toList := by
          rw [← hrest]
          simp
        exact absurd hslash (by decide)
      have hpieces := splitOn_pathText htexts hne
      rw [← hrest, List.append_assoc, List.singleton_append, splitOn_append_cons, hsplit] at hpieces
      obtain ⟨front, more, rfl, hfront, -⟩ := List.map_eq_append_iff.mp hpieces.symm
      rw [map_toList_injective hfront]
      exact List.prefix_append names more
  · rintro ⟨more, rfl⟩
    by_cases hmore : more = []
    · rw [hmore, List.append_nil]
      exact Or.inl rfl
    · refine Or.inr ⟨(pathText more).toList, ?_⟩
      rw [pathText_append htexts hnames hmore, String.toList_append, String.toList_append]
      rfl

/-- Whether a path is another one, or begins with it and a slash. -/
def liesBelow (path unit : String) : Bool :=
  unit == path || beginsWith (path ++ "/") unit

/-- A unit is listed by a path below that of a place if its way shows as one through the place. -/
theorem liesBelow_shown_iff (h : AreNames names) (hnames : names ≠ []) (htree : d.IsTree)
    (hunit : IsUnitAt d below) :
    liesBelow (pathText names) (shown below) = true ↔ names <+: below.map FileName.text := by
  have hslash : ∀ text ∈ below.map FileName.text, '/' ∉ text.toList := by
    intro text htext
    obtain ⟨name, hname, rfl⟩ := List.mem_map.mp htext
    obtain ⟨sub, content, henters, -⟩ := hunit
    exact slash_not_mem_text (isEntryName_of_at? htree henters.1 name hname).1.2.2.2.1
  rw [← prefix_pathText_iff h hslash hnames, shown_eq]
  simp [liesBelow, beginsWith]

/-- What is a text shows as no other text. -/
theorem prefix_of_areTexts (htexts : AreTexts below) (h : names <+: below.map FileName.text) :
    FileName.ofTexts names <+: below := by
  obtain ⟨texts, rfl⟩ := htexts
  rw [map_text_ofTexts] at h
  exact h.map Utf8.encode

/-- The units in a directory of a lake are listed as those units of the lake that lie there, if none
that lies elsewhere shows as if it did. -/
theorem unitPaths_eq_filter {lake : Directory} (hroot : isAbsolute root = true)
    (h : AreNames names) (hnames : names ≠ []) (hlake : lake.IsTree) (htree : d.IsTree)
    (hunits : ∀ below, IsUnitAt lake (FileName.ofTexts names ++ below) ↔ IsUnitAt d below)
    (halike : ∀ below, IsUnitAt lake below → names <+: below.map FileName.text →
      FileName.ofTexts names <+: below) :
    unitPaths root (startOf root (pathText names)) d =
      (unitPaths root (startOf root (pathText [])) lake).filter (liesBelow (pathText names)) := by
  have hperm : ((units [] lake).filter (liesBelow (pathText names) ∘ shown)).Perm
      ((units [] d).map (FileName.ofTexts names ++ ·)) := by
    refine (List.perm_ext_iff_of_nodup ((nodup_units hlake []).filter _)
      ((nodup_units htree []).map (List.append_right_injective _))).mpr fun below => ?_
    rw [List.mem_filter, mem_units_nil_iff hlake, List.mem_map]
    constructor
    · rintro ⟨hunit, hbelow⟩
      obtain ⟨more, rfl⟩ := halike below hunit
        ((liesBelow_shown_iff h hnames hlake hunit).mp hbelow)
      exact ⟨more, (mem_units_nil_iff htree).mpr ((hunits more).mp hunit), rfl⟩
    · rintro ⟨more, hmore, rfl⟩
      have hunit := (hunits more).mpr ((mem_units_nil_iff htree).mp hmore)
      refine ⟨hunit, (liesBelow_shown_iff h hnames hlake hunit).mpr ?_⟩
      rw [List.map_append, map_text_ofTexts]
      exact List.prefix_append names _
  -- two sorted lists with the same members, each as often
  refine List.Perm.eq_of_pairwise (fun _ _ _ _ => String.le_antisymm)
    (pairwise_le_unitPaths root _ d) ((pairwise_le_unitPaths root _ lake).filter _) ?_
  calc unitPaths root (startOf root (pathText names)) d
    _ ~ (units [] d).map fun below => shown (FileName.ofTexts names ++ below) :=
      perm_unitPaths hroot h d
    _ = ((units [] d).map (FileName.ofTexts names ++ ·)).map shown := by
      rw [List.map_map, Function.comp_def]
    _ ~ ((units [] lake).filter (liesBelow (pathText names) ∘ shown)).map shown :=
      (hperm.map shown).symm
    _ = ((units [] lake).map shown).filter (liesBelow (pathText names)) := List.filter_map.symm
    _ ~ (unitPaths root (startOf root (pathText [])) lake).filter (liesBelow (pathText names)) :=
      ((perm_unitPaths hroot areNames_nil lake).filter _).symm

end Discovery
end ProtoBuild
