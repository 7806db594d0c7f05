import Mathlib.Data.List.Induction
import ProtoBuild.Proofs.Directory.Machines
import ProtoBuild.Proofs.Discovery.Units
import ProtoBuild.Proofs.Program.Runs

/-!
# What a search finds

A search asks its machine twice: whether there is a directory to begin in, and what lies in it.
`found_eq` reads what is found off the answers, and `finds_units_below` compares it with the units
that are there, on any machine that keeps a tree of files.  A search finds the units at or below the
place it is for, and which of the directories on the way to that place are hidden does not matter.

## What a search does not tell

A directory can be there, and its path too long for the machine.  If the search is for that
directory, the search takes it for missing; if the directory is below, the search fails
(`found_of_not_inReach`).  And a path shows a name that is no text as something else, so that two
units may be listed by one path.  `overlooks_and_repeats` has a machine for each of these.
-/

namespace ProtoBuild

open Directory ProtoBuild.Path Text

namespace Discovery

variable {answers : (q : Host.Request) → q.Answer} {tree d lake : Directory} {limit : Nat}
  {root name : String} {names : List String}

/-- Whether names lead from the root of a lake to a directory. -/
def HasDirectory (tree : Directory) (root : String) (names : List String) (d : Directory) : Prop :=
  ∃ base, tree.resolve [] root = .ok base ∧
    tree.at? (base ++ FileName.ofTexts names) = some (.folder d)

/-- What a search for a place in a lake finds on a machine. -/
def found (answers : (q : Host.Request) → q.Answer) (root : String) (names : List String) :
    Except DiscoveryError (List String) :=
  ((find root (pathText names)).replay answers).2

theorem replay_isFolder_bind {α : Type} (answers : (q : Host.Request) → q.Answer) (path : String)
    (f : Bool → Host.Action α) :
    ((Host.isFolder path >>= f).replay answers).2 =
      ((f (answers (.kind path) == some .folder)).replay answers).2 := rfl

theorem replay_survey_bind {α : Type} (answers : (q : Host.Request) → q.Answer) (path : String)
    (isEntered : FileName → Bool) (f : Except Unreadable Directory → Host.Action α) :
    ((Host.ask (.survey path isEntered) >>= f).replay answers).2 =
      ((f (answers (.survey path isEntered))).replay answers).2 := rfl

theorem found_eq (answers : (q : Host.Request) → q.Answer) (root : String) (names : List String) :
    found answers root names =
      if answers (.kind (startOf root (pathText names))) = some .folder then
        match answers (.survey (startOf root (pathText names)) isOpen) with
        | .ok d => .ok (unitPaths root (startOf root (pathText names)) d)
        | .error e => .error (.walk (startOf root (pathText names)) e.message)
      else .error (.notFound (startOf root (pathText names))) := by
  have hopen : isOpen = fun name => ! isHidden name := rfl
  rw [found, find, replay_isFolder_bind]
  by_cases hkind : answers (.kind (startOf root (pathText names))) = some .folder
  · rw [hkind, if_pos rfl]
    show ((Host.ask (.survey _ isOpen) >>= _).replay answers).2 = _
    rw [replay_survey_bind]
    cases answers (.survey (startOf root (pathText names)) isOpen) with
    | ok d => rfl
    | error e => rfl
  · rw [if_neg hkind, if_pos (by simpa using hkind)]
    rfl

/-- On a machine in memory a search finds what is found with its replies, and changes nothing. -/
theorem run_find (m : MemoryMachine) (root : String) (names : List String) :
    m.run (find root (pathText names)) = (found m.replies root names, m) := by
  have hfolder : ∀ {α : Type} (path : String) (f : Bool → Host.Action α),
      m.run (Host.isFolder path >>= f) = m.run (f (m.kind path == some .folder)) :=
    fun _ _ => rfl
  have hsurvey : ∀ {α : Type} (path : String) (f : Except Unreadable Directory → Host.Action α),
      m.run (Host.ask (.survey path isOpen) >>= f) = m.run (f (m.survey path isOpen)) :=
    fun _ _ => rfl
  have hreplies : ∀ path, m.replies (.kind path) = m.kind path ∧
      m.replies (.survey path isOpen) = m.survey path isOpen := fun _ => ⟨rfl, rfl⟩
  rw [found_eq, find, hfolder, (hreplies _).1, (hreplies _).2]
  by_cases hkind : m.kind (startOf root (pathText names)) = some .folder
  · rw [if_pos hkind, hkind]
    show m.run (Host.ask (.survey _ isOpen) >>= _) = _
    rw [hsurvey]
    cases m.survey (startOf root (pathText names)) isOpen with
    | ok d => rfl
    | error e => rfl
  · rw [if_neg hkind, if_pos (by simpa using hkind)]
    rfl

/-! ## Where a search begins -/

/-- The way from `/` to where a search begins. -/
theorem resolve_startOf (hroot : isAbsolute root = true) (h : AreNames names) :
    tree.resolve [] (startOf root (pathText names)) =
      tree.resolve [] root >>= fun base => (names.map String.toList).foldlM tree.follow base := by
  by_cases hnames : names = []
  · subst hnames
    exact (bind_pure (tree.resolve [] root)).symm
  · rw [startOf, if_neg (h.pathText_ne hnames), resolve_join hroot h.isAbsolute_pathText,
      splitOn_pathText h.slash_not_mem hnames]

theorem leadsTo_startOf_iff (htree : tree.IsTree) (hroot : isAbsolute root = true)
    (h : AreNames names) :
    tree.LeadsTo (startOf root (pathText names)) d ↔ HasDirectory tree root names d := by
  rw [LeadsTo, resolve_startOf hroot h, HasDirectory]
  cases tree.resolve [] root with
  | error e =>
    refine iff_of_false ?_ ?_
    · rintro ⟨place, ⟨⟩, -⟩
    · rintro ⟨base, ⟨⟩, -⟩
  | ok base =>
    show (∃ place, (names.map String.toList).foldlM tree.follow base = .ok place ∧ _) ↔ _
    constructor
    · rintro ⟨place, hplace, hnode⟩
      obtain rfl := eq_append_of_foldlM_follow (fun name hname => (h name hname).1) hplace
      exact ⟨base, rfl, hnode⟩
    · rintro ⟨other, hbase, hnode⟩
      obtain rfl := Except.ok.inj hbase
      exact ⟨_, foldlM_follow_of_at? htree hnode, hnode⟩

/-- A search for the whole lake begins at its root. -/
theorem startOf_whole (root : String) : startOf root (pathText []) = root :=
  if_pos rfl

theorem isAbsolute_startOf (hroot : isAbsolute root = true) (search : String) :
    isAbsolute (startOf root search) = true := by
  rw [startOf]
  split
  · exact hroot
  · exact isAbsolute_join hroot

/-! ## Paths below the beginning -/

/-- A path below a path below another one, which does not end in a slash. -/
theorem join_join {base mid child : String} (hbase : base ≠ "") (hmid : mid ≠ "")
    (hrelative : isAbsolute mid = false) (hlast : mid.toList.getLast? ≠ some '/')
    (hchild : isAbsolute child = false) :
    Path.join (Path.join base mid) child = Path.join base (mid ++ "/" ++ child) := by
  have hempty : ∀ path : String, path ≠ "" → path.isEmpty = false := fun path hpath =>
    String.isEmpty_eq_false_iff.mpr hpath
  have hjoin : ∀ front : String, front ++ mid ≠ "" ∧
      ((front ++ mid).toList.getLast? == some '/') = false := by
    intro front
    have hne := mt String.toList_eq_nil_iff.mp hmid
    refine ⟨fun h => ?_, ?_⟩
    · have hnil := congrArg String.toList h
      rw [String.toList_append] at hnil
      exact hne (List.append_eq_nil_iff.mp hnil).2
    · rw [String.toList_append, List.getLast?_append_of_ne_nil _ hne]
      exact beq_eq_false_iff_ne.mpr hlast
  have htail : isAbsolute (mid ++ "/" ++ child) = false := by
    rw [String.append_assoc, isAbsolute_append hmid, hrelative]
  rw [Path.join.eq_1 base mid, Path.join.eq_1 base (mid ++ "/" ++ child), hrelative, htail,
    hempty base hbase, Bool.false_or, if_neg Bool.false_ne_true, if_neg Bool.false_ne_true]
  split
  · obtain ⟨hne, hslash⟩ := hjoin base
    rw [Path.join, hchild, hempty _ hne, hslash, Bool.false_or, if_neg Bool.false_ne_true,
      if_neg Bool.false_ne_true, String.append_assoc, String.append_assoc, String.append_assoc]
  · obtain ⟨hne, hslash⟩ := hjoin (base ++ "/")
    rw [Path.join, hchild, hempty _ hne, hslash, Bool.false_or, if_neg Bool.false_ne_true,
      if_neg Bool.false_ne_true]
    simp only [String.append_assoc]

theorem join_startOf (hroot : isAbsolute root = true) (h : AreNames (names ++ [name])) :
    Path.join (startOf root (pathText names)) name =
      startOf root (pathText (names ++ [name])) := by
  have hname : AreNames [name] := fun n hn => h n (List.mem_append_right names hn)
  have htext : pathText [name] = name := String.ofList_toList
  rw [startOf.eq_1 root (pathText (names ++ [name])), if_neg (h.pathText_ne (by simp))]
  by_cases hnames : names = []
  · subst hnames
    rw [List.nil_append, htext]
    rfl
  · have hfront : AreNames names := fun n hn => h n (List.mem_append_left [name] hn)
    have hbase : root ≠ "" := String.isEmpty_eq_false_iff.mp (isEmpty_of_isAbsolute hroot)
    have hnamed := hfront.isNamed_pathText hnames
    rw [startOf, if_neg (hfront.pathText_ne hnames),
      pathText_append h.slash_not_mem hnames (List.cons_ne_nil name []), htext]
    refine join_join hbase ?_ hfront.isAbsolute_pathText ?_ ?_
    · exact fun hempty => hnamed.ne_nil (String.toList_eq_nil_iff.mpr hempty)
    · intro hlast
      obtain ⟨front, heq⟩ := List.getLast?_eq_some_iff.mp hlast
      rw [heq] at hnamed
      exact not_isNamed_of_slash_right front hnamed
    · rw [← htext]
      exact hname.isAbsolute_pathText

theorem encode_join {base child : String} (hbase : base ≠ "") (hchild : isAbsolute child = false) :
    Utf8.encode (Path.join base child) = entryPath (Utf8.encode base) (Utf8.encode child) := by
  have hempty : base.isEmpty = false := String.isEmpty_eq_false_iff.mpr hbase
  have hlast := Utf8.getLast?_encode_eq_slash_iff base
  rw [Path.join, hchild, hempty, Bool.false_or, if_neg Bool.false_ne_true, entryPath, slash]
  by_cases hslash : base.toList.getLast? = some '/'
  · rw [if_pos (beq_iff_eq.mpr hslash), if_pos (hlast.mpr hslash), Utf8.encode_append]
  · rw [if_neg (mt beq_iff_eq.mp hslash), if_neg (mt hlast.mp hslash), Utf8.encode_append,
      Utf8.encode_append, List.append_assoc]
    rfl

/-- The path of a place is the same, whether it is written as a text or found on the way down. -/
theorem encode_startOf (hroot : isAbsolute root = true) (h : AreNames names) :
    Utf8.encode (startOf root (pathText names)) =
      (FileName.ofTexts names).foldl entryPath (Utf8.encode root) := by
  induction names using List.reverseRecOn with
  | nil => rfl
  | append_singleton names name ih =>
    have hfront : AreNames names := fun n hn => h n (List.mem_append_left [name] hn)
    have hname : AreNames [name] := fun n hn => h n (List.mem_append_right names hn)
    have htext : pathText [name] = name := String.ofList_toList
    have hstart : startOf root (pathText names) ≠ "" :=
      String.isEmpty_eq_false_iff.mp (isEmpty_of_isAbsolute (isAbsolute_startOf hroot _))
    rw [← join_startOf hroot h, encode_join hstart (htext ▸ hname.isAbsolute_pathText), ih hfront,
      FileName.ofTexts_append, List.foldl_append]
    rfl

/-! ## Answers -/

theorem hasDirectory_unique {other : Directory} (h : HasDirectory tree root names d)
    (h' : HasDirectory tree root names other) : d = other := by
  obtain ⟨base, hbase, hnode⟩ := h
  obtain ⟨base', hbase', hnode'⟩ := h'
  obtain rfl := Except.ok.inj (hbase.symm.trans hbase')
  exact Node.folder.inj (Option.some.inj (hnode.symm.trans hnode'))

theorem isUnitAt_iff_of_lists {listing : Directory} {below : List FileName}
    (h : d.Lists isOpen listing) : IsUnitAt listing below ↔ IsUnitAt d below := by
  rw [isUnitAt_iff, isUnitAt_iff]
  exact and_congr_right fun hopen => h.file_iff below marker hopen

section

variable (hkeeps : Host.Keeps answers tree limit) (hroot : isAbsolute root = true)
  (hnames : AreNames names)
include hkeeps hroot hnames

theorem kind_startOf_iff :
    answers (.kind (startOf root (pathText names))) = some .folder ↔
      ∃ d, HasDirectory tree root names d ∧
        (startOf root (pathText names)).utf8ByteSize ≤ limit := by
  rw [hkeeps.kind_iff _ (isAbsolute_startOf hroot _), ← exists_and_left]
  refine exists_congr fun d => ?_
  rw [and_comm, leadsTo_startOf_iff hkeeps.isTree hroot hnames]

/-- A place is missing for a search if there is no directory whose path can be looked at. -/
theorem found_eq_notFound_iff :
    found answers root names = .error (.notFound (startOf root (pathText names))) ↔
      ¬ ∃ d, HasDirectory tree root names d ∧
        (startOf root (pathText names)).utf8ByteSize ≤ limit := by
  rw [← kind_startOf_iff hkeeps hroot hnames, found_eq]
  split
  · rename_i hkind
    refine iff_of_false ?_ (not_not_intro hkind)
    cases answers (.survey (startOf root (pathText names)) isOpen) with
    | ok d => exact fun h => nomatch h
    | error e => exact fun h => nomatch h
  · rename_i hkind
    exact iff_of_true rfl hkind

/-- A search that does not reach all directories fails, but it does not miss the one that it is
for. -/
theorem found_of_not_inReach (h : HasDirectory tree root names d)
    (hstart : (startOf root (pathText names)).utf8ByteSize ≤ limit)
    (hreach : ¬ d.InReach isOpen limit (Utf8.encode (startOf root (pathText names)))) :
    ∃ message, found answers root names =
      .error (.walk (startOf root (pathText names)) message) := by
  obtain ⟨e, hsurvey⟩ := hkeeps.survey_error _ isOpen d (isAbsolute_startOf hroot _)
    ((leadsTo_startOf_iff hkeeps.isTree hroot hnames).mpr h) hreach
  refine ⟨e.message, ?_⟩
  rw [found_eq, if_pos ((kind_startOf_iff hkeeps hroot hnames).mpr ⟨d, h, hstart⟩), hsurvey]

/-- All units are found if all directories are in reach. -/
theorem found_of_inReach (h : HasDirectory tree root names d)
    (hreach : d.InReach isOpen limit (Utf8.encode (startOf root (pathText names)))) :
    ∃ listing, d.Lists isOpen listing ∧
      found answers root names = .ok (unitPaths root (startOf root (pathText names)) listing) := by
  have hstart : (startOf root (pathText names)).utf8ByteSize ≤ limit := by
    rw [← Utf8.length_encode]
    exact hreach [] d (enters_nil_iff.mpr rfl)
  obtain ⟨listing, hsurvey, hlists⟩ := hkeeps.survey_ok _ isOpen d (isAbsolute_startOf hroot _)
    ((leadsTo_startOf_iff hkeeps.isTree hroot hnames).mpr h) hreach
  refine ⟨listing, hlists, ?_⟩
  rw [found_eq, if_pos ((kind_startOf_iff hkeeps hroot hnames).mpr ⟨d, h, hstart⟩), hsurvey]

/-- Where something is found there is a directory, and all that is entered from it is in reach. -/
theorem inReach_of_found {units : List String} (h : found answers root names = .ok units) :
    ∃ d, HasDirectory tree root names d ∧
      d.InReach isOpen limit (Utf8.encode (startOf root (pathText names))) := by
  have hthere : ∃ d, HasDirectory tree root names d ∧
      (startOf root (pathText names)).utf8ByteSize ≤ limit := by
    by_contra hmissing
    exact nomatch h.symm.trans ((found_eq_notFound_iff hkeeps hroot hnames).mpr hmissing)
  obtain ⟨d, hd, hstart⟩ := hthere
  refine ⟨d, hd, ?_⟩
  by_contra hreach
  obtain ⟨message, hwalk⟩ := found_of_not_inReach hkeeps hroot hnames hd hstart hreach
  exact nomatch h.symm.trans hwalk

/-- A search for a place that is not hidden finds what a search for the whole lake finds there, if
no unit that lies elsewhere shows as if it lay there. -/
theorem found_eq_filter (h : HasDirectory tree root names d) (hne : names ≠ [])
    (hopen : ∀ name ∈ names, isOpen (Utf8.encode name) = true)
    (hwhole : HasDirectory tree root [] lake)
    (halike : ∀ below, IsUnitAt lake below → names <+: below.map FileName.text →
      FileName.ofTexts names <+: below)
    {all : List String} (hall : found answers root [] = .ok all) :
    found answers root names = .ok (all.filter (liesBelow (pathText names))) := by
  obtain ⟨other, hother, hreach⟩ := inReach_of_found hkeeps hroot areNames_nil hall
  obtain rfl := hasDirectory_unique hwhole hother
  -- the directory is one of those that are entered in the lake
  have henters : lake.Enters isOpen (FileName.ofTexts names) d := by
    obtain ⟨base, hbase, hlake⟩ := hwhole
    obtain ⟨base', hbase', hnode⟩ := h
    obtain rfl := Except.ok.inj (hbase.symm.trans hbase')
    rw [FileName.ofTexts_nil, List.append_nil] at hlake
    obtain ⟨inside, hinside, hsub⟩ := at?_append_eq_folder_iff.mp hnode
    obtain rfl := Node.folder.inj (Option.some.inj (hlake.symm.trans hinside))
    refine ⟨hsub, fun entry hentry => ?_⟩
    obtain ⟨name, hname, rfl⟩ := List.mem_map.mp hentry
    exact hopen name hname
  have hreach' : d.InReach isOpen limit (Utf8.encode (startOf root (pathText names))) := by
    rw [encode_startOf hroot hnames]
    exact hreach.of_enters henters
  obtain ⟨part, hpart, hfound⟩ := found_of_inReach hkeeps hroot hnames h hreach'
  obtain ⟨whole, hlists, hfound'⟩ := found_of_inReach hkeeps hroot areNames_nil hwhole hreach
  obtain rfl := Except.ok.inj (hall.symm.trans hfound')
  rw [hfound]
  refine congrArg Except.ok (unitPaths_eq_filter hroot hnames hne hlists.isTree hpart.isTree
    (fun below => ?_) fun below hunit => halike below ((isUnitAt_iff_of_lists hlists).mp hunit))
  rw [isUnitAt_iff_of_lists hlists, isUnitAt_iff_of_lists hpart, isUnitAt_append_iff henters]

end

theorem isOpen_eq_true_iff (entry : FileName) :
    isOpen entry = true ↔
      beginsWith "." entry.text = false ∧ beginsWith "bazel-" entry.text = false := by
  simp [isOpen, isHidden]

/-- **What a search finds.**  On a machine that keeps a tree and takes paths up to some length, a
search for a place in a lake says that the place is missing exactly if there is no directory or its
path is longer than that.  Else it fails if one of the directories on the ways down has a path that
is too long, and otherwise it lists, in the order of their bytes, the paths of the directories at or
below the place that hold the file `bundle.yaml` and to which one comes from there through no name
that begins with `.` or `bazel-`: one path for each, as it shows, so that no path is listed twice if
all names are texts.

Then what is found at a place is also what is found in the whole lake and lies there, unless a name
of the place is hidden itself, or a unit lies below another directory that shows as the place does;
if names are texts there is none (`prefix_of_areTexts`).  The whole lake is no such place, since
nothing else begins with its path `.`. -/
theorem finds_units_below (answers : (q : Host.Request) → q.Answer) (tree : Directory) (limit : Nat)
    (hkeeps : Host.Keeps answers tree limit) (root : String) (hroot : isAbsolute root = true)
    (names : List String) (hnames : AreNames names) :
    (((find root (pathText names)).replay answers).2 =
        .error (.notFound (startOf root (pathText names))) ↔
      ¬ ∃ d, HasDirectory tree root names d ∧
        (startOf root (pathText names)).utf8ByteSize ≤ limit) ∧
    ∀ d, HasDirectory tree root names d →
      ((startOf root (pathText names)).utf8ByteSize ≤ limit →
        ¬ d.InReach isOpen limit (Utf8.encode (startOf root (pathText names))) →
        ∃ message, ((find root (pathText names)).replay answers).2 =
          .error (.walk (startOf root (pathText names)) message)) ∧
      (d.InReach isOpen limit (Utf8.encode (startOf root (pathText names))) →
        ∃ (units : List String) (ways : List (List FileName)),
          ((find root (pathText names)).replay answers).2 = .ok units ∧
          (∀ below, below ∈ ways ↔ ∃ sub content, d.at? below = some (.folder sub) ∧
            sub.get? (Utf8.encode "bundle.yaml") = some (.file content) ∧
            ∀ name ∈ below, beginsWith "." name.text = false ∧
              beginsWith "bazel-" name.text = false) ∧
          ways.Nodup ∧
          units.Perm (ways.map fun below => shown (FileName.ofTexts names ++ below)) ∧
          (units.Pairwise fun a b => Utf8.encode a ≤ Utf8.encode b) ∧
          ((∀ below ∈ ways, AreTexts below) →
            units.Pairwise fun a b => Utf8.encode a < Utf8.encode b)) ∧
      (names ≠ [] →
        (∀ name ∈ names, beginsWith "." name = false ∧ beginsWith "bazel-" name = false) →
        ∀ lake, HasDirectory tree root [] lake →
          (∀ below, IsUnitAt lake below → names <+: below.map FileName.text →
            FileName.ofTexts names <+: below) →
          ∀ all, ((find root ".").replay answers).2 = .ok all →
            ((find root (pathText names)).replay answers).2 = .ok (all.filter fun unit =>
              unit == pathText names || beginsWith (pathText names ++ "/") unit)) := by
  refine ⟨found_eq_notFound_iff hkeeps hroot hnames, fun d hd => ⟨
    found_of_not_inReach hkeeps hroot hnames hd, fun hreach => ?_,
    fun hne hopen lake hwhole halike all hall => ?_⟩⟩
  · obtain ⟨listing, hlists, hfound⟩ := found_of_inReach hkeeps hroot hnames hd hreach
    have hways : ∀ below, below ∈ units [] listing ↔ IsUnitAt d below := fun below =>
      (mem_units_nil_iff hlists.isTree).trans (isUnitAt_iff_of_lists hlists)
    refine ⟨_, units [] listing, hfound, fun below => ?_, nodup_units hlists.isTree [],
      perm_unitPaths hroot hnames listing,
      (pairwise_le_unitPaths root _ listing).imp Utf8.encode_le_encode, fun htexts => ?_⟩
    · rw [hways]
      constructor
      · rintro ⟨sub, content, ⟨hsub, hopen⟩, hmarker⟩
        exact ⟨sub, content, hsub, hmarker,
          fun name hname => (isOpen_eq_true_iff name).mp (hopen name hname)⟩
      · rintro ⟨sub, content, hsub, hmarker, hopen⟩
        exact ⟨sub, content,
          ⟨hsub, fun name hname => (isOpen_eq_true_iff name).mpr (hopen name hname)⟩, hmarker⟩
    · refine (pairwise_unitPaths hroot hnames hlists.isTree fun below hunit => ?_).imp
        Utf8.encode_lt_encode
      exact htexts below ((mem_units_nil_iff hlists.isTree).mpr hunit)
  · refine found_eq_filter hkeeps hroot hnames hd hne (fun name hname => ?_) hwhole halike hall
    rw [isOpen_eq_true_iff, text_encode]
    exact hopen name hname

/-- A directory with a unit in it, with a hidden one, and with a directory of the marker's name. -/
def nestedUnits : Directory :=
  .file marker [] (.folder (Utf8.encode "c") (.file marker [] .empty)
    (.folder (Utf8.encode ".git") (.file marker [] .empty)
      (.folder (Utf8.encode "d") (.folder marker .empty .empty) .empty)))

/-- A machine with a lake in which units lie in units. -/
def nestedLake : MemoryMachine where
  root := .folder (Utf8.encode "lake") (.folder (Utf8.encode "a") nestedUnits
    (.folder (Utf8.encode "a-b") (.file marker [] .empty) .empty)) .empty

theorem keeps_nestedLake : Host.Keeps nestedLake.replies nestedLake.root longestPath :=
  MemoryMachine.keeps_replies (by decide)

theorem hasTextNames_nestedLake : HasTextNames nestedLake.root :=
  ⟨⟨"lake", rfl⟩, ⟨⟨"a", rfl⟩, ⟨⟨"c", rfl⟩, trivial, ⟨".git", rfl⟩, trivial, ⟨"d", rfl⟩,
    ⟨⟨"bundle.yaml", rfl⟩, trivial, trivial⟩, trivial⟩, ⟨"a-b", rfl⟩, trivial, trivial⟩, trivial⟩

theorem resolve_nestedLake :
    nestedLake.root.resolve [] "/lake" = .ok [Utf8.encode "lake"] := by
  decide

theorem hasDirectory_nestedUnits : HasDirectory nestedLake.root "/lake" ["a"] nestedUnits :=
  ⟨_, resolve_nestedLake, by decide⟩

theorem inReach_nestedUnits :
    nestedUnits.InReach isOpen longestPath (Utf8.encode "/lake/a") :=
  (inReach_iff (by decide)).mpr ⟨by decide, by decide +kernel⟩

theorem areTexts_nestedUnits {below : List FileName} {sub : Directory}
    (h : nestedUnits.at? below = some (.folder sub)) : AreTexts below :=
  areTexts_of_at? hasTextNames_nestedLake.2.1.2.1 h

theorem not_hasDirectory_nestedLake (d : Directory) :
    ¬ HasDirectory nestedLake.root "/lake" ["b"] d := by
  rintro ⟨base, hbase, hnode⟩
  obtain rfl : base = [Utf8.encode "lake"] := Except.ok.inj (hbase.symm.trans resolve_nestedLake)
  have hnothing : nestedLake.root.at? [Utf8.encode "lake", Utf8.encode "b"] = none := by decide
  exact nomatch hnode.symm.trans hnothing

/-- A search for a directory, one for the whole lake, and one for what is not there. -/
theorem finds_nested_units :
    Host.Keeps nestedLake.replies nestedLake.root longestPath ∧ isAbsolute "/lake" = true ∧
      AreNames ["a"] ∧ HasDirectory nestedLake.root "/lake" ["a"] nestedUnits ∧
      nestedUnits.InReach isOpen longestPath (Utf8.encode "/lake/a") ∧
      ∃ units all, ((find "/lake" "a").replay nestedLake.replies).2 = .ok units ∧
        "a" ∈ units ∧ "a/c" ∈ units ∧ "a/.git" ∉ units ∧
        (units.Pairwise fun a b => Utf8.encode a < Utf8.encode b) ∧
        ((find "/lake" ".").replay nestedLake.replies).2 = .ok all ∧
        units = all.filter (fun unit => unit == "a" || beginsWith "a/" unit) ∧
        (∀ d, ¬ HasDirectory nestedLake.root "/lake" ["b"] d) ∧
        ((find "/lake" "b").replay nestedLake.replies).2 = .error (.notFound "/lake/b") := by
  have hroot : isAbsolute "/lake" = true := by decide
  have hnames : AreNames ["a"] := by decide
  obtain ⟨-, hunits, hfilter⟩ := (finds_units_below nestedLake.replies nestedLake.root longestPath
    keeps_nestedLake "/lake" hroot ["a"] hnames).2 nestedUnits hasDirectory_nestedUnits
  obtain ⟨units, ways, hok, hways, -, hperm, -, hstrict⟩ := hunits inReach_nestedUnits
  have htexts : ∀ below ∈ ways, AreTexts below := by
    intro below hbelow
    obtain ⟨sub, content, hsub, -⟩ := (hways below).mp hbelow
    exact areTexts_nestedUnits hsub
  have hmem : ∀ texts sub content, nestedUnits.at? (FileName.ofTexts texts) = some (.folder sub) →
      sub.get? (Utf8.encode "bundle.yaml") = some (.file content) →
      (∀ text ∈ texts, beginsWith "." text = false ∧ beginsWith "bazel-" text = false) →
      pathText ("a" :: texts) ∈ units := by
    intro texts sub content hsub hmarker hopen
    rw [hperm.mem_iff, ← shown_ofTexts]
    refine List.mem_map_of_mem ((hways _).mpr ⟨sub, content, hsub, hmarker, fun name hname => ?_⟩)
    obtain ⟨text, htext, rfl⟩ := List.mem_map.mp hname
    rw [text_encode]
    exact hopen text htext
  have hself : "a" ∈ units := hmem [] nestedUnits [] rfl rfl (by decide)
  have hinner : "a/c" ∈ units := hmem ["c"] (.file marker [] .empty) [] (by decide) rfl (by decide)
  have hhidden : "a/.git" ∉ units := by
    intro hunit
    obtain ⟨below, hbelow, hshown⟩ := List.mem_map.mp (hperm.mem_iff.mp hunit)
    obtain ⟨sub, content, hsub, -, hopen⟩ := (hways below).mp hbelow
    obtain ⟨texts, rfl⟩ := htexts below hbelow
    have hpath : pathText ("a" :: texts) = pathText ["a", ".git"] :=
      (shown_ofTexts _).symm.trans hshown
    have hall : AreNames (["a"] ++ texts) :=
      hnames.append (areNames_of_at? (by decide : nestedUnits.IsTree) hsub)
    obtain rfl : texts = [".git"] := (List.cons.inj (hall.pathText_inj (by decide) hpath)).2
    have hgit := hopen (Utf8.encode ".git") (List.mem_singleton.mpr rfl)
    rw [text_encode] at hgit
    exact absurd hgit.1 (by decide)
  -- the lake as a whole
  have hlake : HasDirectory nestedLake.root "/lake" [] _ := ⟨_, resolve_nestedLake, rfl⟩
  obtain ⟨-, hwhole, -⟩ := (finds_units_below nestedLake.replies nestedLake.root longestPath
    keeps_nestedLake "/lake" hroot [] areNames_nil).2 _ hlake
  obtain ⟨all, -, hall, -⟩ := hwhole ((inReach_iff (by decide)).mpr ⟨by decide, by decide +kernel⟩)
  have hfiltered := hfilter (List.cons_ne_nil "a" []) (by decide) _ hlake
    (fun below hunit => prefix_of_areTexts
      (areTexts_of_isUnitAt hasTextNames_nestedLake.2.1 hunit)) all hall
  -- a place at which there is nothing
  have hnotFound := (finds_units_below nestedLake.replies nestedLake.root longestPath
    keeps_nestedLake "/lake" hroot ["b"] (by decide)).1.mpr
      fun ⟨d, hd, _⟩ => not_hasDirectory_nestedLake d hd
  exact ⟨keeps_nestedLake, hroot, hnames, hasDirectory_nestedUnits, inReach_nestedUnits, units, all,
    hok, hself, hinner, hhidden, hstrict htexts, hall, Except.ok.inj (hok.symm.trans hfiltered),
    not_hasDirectory_nestedLake, hnotFound⟩

/-- Two units whose names are no texts. -/
def brokenUnits : Directory :=
  .folder [0xFF] (.file marker [] .empty) (.folder [0xFE] (.file marker [] .empty) .empty)

/-- A machine with a lake of such units. -/
def brokenLake : MemoryMachine where
  root := .folder (Utf8.encode "lake") brokenUnits .empty

theorem keeps_brokenLake : Host.Keeps brokenLake.replies brokenLake.root longestPath :=
  MemoryMachine.keeps_replies (by decide)

/-- The path `/`, written at a length of one's own. -/
def slashes (n : Nat) : String := String.ofList (List.replicate n '/')

theorem utf8ByteSize_slashes (n : Nat) : (slashes n).utf8ByteSize = n := by
  induction n with
  | zero => rfl
  | succ n ih =>
    have hone : ('/' : Char).utf8Size = 1 := rfl
    rw [slashes, List.replicate_succ, String.ofList_cons, String.utf8ByteSize_append,
      String.utf8ByteSize_singleton, hone, ← slashes, ih, Nat.add_comm]

theorem isAbsolute_slashes {n : Nat} (hn : 0 < n) : isAbsolute (slashes n) = true := by
  obtain ⟨n, rfl⟩ := Nat.exists_eq_succ_of_ne_zero hn.ne'
  rw [isAbsolute, slashes, String.toList_ofList]
  rfl

theorem resolve_slashes (tree : Directory) (place : List FileName) {n : Nat} (hn : 0 < n) :
    tree.resolve place (slashes n) = .ok [] := by
  have hall : ∀ n, (splitOn '/' (List.replicate n '/')).foldlM tree.follow [] = .ok [] := by
    intro n
    induction n with
    | zero => rfl
    | succ n ih => exact ih
  rw [resolve_of_isAbsolute (isAbsolute_slashes hn), slashes, String.toList_ofList, hall]

theorem hasDirectory_slashes (tree : Directory) {n : Nat} (hn : 0 < n) :
    HasDirectory tree (slashes n) [] tree :=
  ⟨[], resolve_slashes tree [] hn, rfl⟩

/-- A directory is taken for missing if its path is too long. -/
theorem found_slashes_of_long (hkeeps : Host.Keeps answers tree limit) {n : Nat}
    (hn : limit < n) :
    ((find (slashes n) ".").replay answers).2 = .error (.notFound (slashes n)) := by
  have hfound := (found_eq_notFound_iff hkeeps (isAbsolute_slashes (Nat.zero_lt_of_lt hn))
    areNames_nil).mpr
  rw [startOf_whole] at hfound
  refine hfound ?_
  rintro ⟨d, -, hshort⟩
  rw [utf8ByteSize_slashes] at hshort
  exact Nat.not_le.mpr hn hshort

/-- Nothing is found in a directory whose path is as long as a path can be, if there is a directory
in it. -/
theorem found_slashes_of_longest (hkeeps : Host.Keeps answers tree limit) (hlimit : 0 < limit)
    {entry : FileName} (hinside : tree.Enters isOpen [entry] d) :
    ∃ message, ((find (slashes limit) ".").replay answers).2 =
      .error (.walk (slashes limit) message) := by
  have hfound := found_of_not_inReach hkeeps (isAbsolute_slashes hlimit) areNames_nil
    (hasDirectory_slashes tree hlimit)
  rw [startOf_whole] at hfound
  refine hfound (utf8ByteSize_slashes limit).le fun hreach => ?_
  have hshort : (entryPath (Utf8.encode (slashes limit)) entry).length ≤ limit :=
    hreach [entry] d hinside
  have hlong := le_length_entryPath (Utf8.encode (slashes limit)) entry
  rw [Utf8.length_encode, utf8ByteSize_slashes] at hlong
  have hname : 0 < entry.length := List.length_pos_iff.mpr
    (isEntryName_of_at? hkeeps.isTree hinside.1 entry (List.mem_singleton.mpr rfl)).1.1
  omega

/-- A directory whose path is too long is taken for missing, below one whose path is just short
enough nothing is found, and two units are listed by one path. -/
theorem overlooks_and_repeats :
    (Host.Keeps nestedLake.replies nestedLake.root longestPath ∧
      HasDirectory nestedLake.root (slashes (longestPath + 1)) [] nestedLake.root ∧
      ((find (slashes (longestPath + 1)) ".").replay nestedLake.replies).2 =
        .error (.notFound (slashes (longestPath + 1)))) ∧
    (HasDirectory nestedLake.root (slashes longestPath) [] nestedLake.root ∧
      ∃ message, ((find (slashes longestPath) ".").replay nestedLake.replies).2 =
        .error (.walk (slashes longestPath) message)) ∧
    Host.Keeps brokenLake.replies brokenLake.root longestPath ∧
      ∃ units, ((find "/lake" ".").replay brokenLake.replies).2 = .ok units ∧ ¬ units.Nodup := by
  have hlongest : 0 < longestPath := by decide
  have hlake : nestedLake.root.Enters isOpen [Utf8.encode "lake"] _ := ⟨rfl, by decide +kernel⟩
  refine ⟨⟨keeps_nestedLake, hasDirectory_slashes _ (Nat.zero_lt_succ longestPath),
      found_slashes_of_long keeps_nestedLake (Nat.lt_succ_self longestPath)⟩,
    ⟨hasDirectory_slashes _ hlongest, found_slashes_of_longest keeps_nestedLake hlongest hlake⟩,
    keeps_brokenLake, ?_⟩
  have hbroken : HasDirectory brokenLake.root "/lake" [] brokenUnits :=
    ⟨[Utf8.encode "lake"], by decide, by decide⟩
  have hroot : isAbsolute "/lake" = true := by decide
  have hreach : brokenUnits.InReach isOpen longestPath (Utf8.encode "/lake") :=
    (inReach_iff (by decide)).mpr ⟨by decide, by decide +kernel⟩
  obtain ⟨listing, hlists, hfound⟩ :=
    found_of_inReach keeps_brokenLake hroot areNames_nil hbroken hreach
  have hopen : isOpen [0xFF] = true ∧ isOpen [0xFE] = true := by decide +kernel
  have hfirst : IsUnitAt brokenUnits [[0xFF]] :=
    ⟨_, [], ⟨rfl, List.forall_mem_singleton.mpr hopen.1⟩, rfl⟩
  have hsecond : IsUnitAt brokenUnits [[0xFE]] :=
    ⟨_, [], ⟨rfl, List.forall_mem_singleton.mpr hopen.2⟩, rfl⟩
  exact ⟨_, hfound, not_nodup_unitPaths hroot areNames_nil hlists.isTree
    ((isUnitAt_iff_of_lists hlists).mpr hfirst) ((isUnitAt_iff_of_lists hlists).mpr hsecond)
    (by decide) (by decide +kernel)⟩

end Discovery
end ProtoBuild
