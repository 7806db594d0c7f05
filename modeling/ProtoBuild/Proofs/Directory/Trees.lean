import ProtoBuild.Directory.Follow
import ProtoBuild.Proofs.Path.Places
import ProtoBuild.Proofs.Text.Decoding

/-!
# Trees and the paths in them

A `Directory` is a list of entries, and not every such list is a tree of files: two entries could
have one name, and a name could be a path.  `IsTree` excludes both, and leaves open whether a name
is a text.  In a tree a place is led to by its names, one after another
(`at?_append_eq_folder_iff`), and each of them is the name of an entry (`isEntryName_of_at?`).

Following a path asks for a directory at every piece, so a path that is followed below another one
is followed from where the other leads (`resolve_join`), also where the other ends in a slash.  The
names of a directory lead to it (`foldlM_follow_of_at?`).

`Enters` is a way down through directories that are entered.  What lies on such ways is in reach if
no path on them is too long (`InReach`), and that is said of all ways at once (`inReach_iff`).
-/

namespace ProtoBuild
namespace Directory

open ProtoBuild.Path Text

variable {tree d inside sub rest : Directory} {name : FileName}
  {names place found : List FileName} {node : Node} {content : List UInt8}

/-! ## Trees -/

/-- A name that an entry can have: any bytes without a slash and without a NUL, apart from the two
names that lead elsewhere. -/
def IsEntryName (name : FileName) : Prop :=
  (name ≠ [] ∧ name ≠ Utf8.encode "." ∧ name ≠ Utf8.encode ".." ∧ slash ∉ name ∧ 0 ∉ name) ∧
    name.length ≤ longestName

/-- Entries with names of their own at all depths. -/
def IsTree : Directory → Prop
  | .empty => True
  | .file name _ rest => IsEntryName name ∧ rest.get? name = none ∧ rest.IsTree
  | .folder name inside rest =>
    IsEntryName name ∧ rest.get? name = none ∧ inside.IsTree ∧ rest.IsTree

instance (name : FileName) : Decidable (IsEntryName name) := by
  unfold IsEntryName
  infer_instance

instance decidableIsTree : (d : Directory) → Decidable d.IsTree
  | .empty => .isTrue trivial
  | .file _ _ rest =>
    have := decidableIsTree rest
    inferInstanceAs (Decidable (_ ∧ _ ∧ _))
  | .folder _ inside rest =>
    have := decidableIsTree inside
    have := decidableIsTree rest
    inferInstanceAs (Decidable (_ ∧ _ ∧ _ ∧ _))

theorem isEntryName_of_get? (htree : d.IsTree) (h : d.get? name = some node) :
    IsEntryName name := by
  induction d with
  | empty => cases h
  | file other content rest ih =>
    rw [get?] at h
    split at h
    · rename_i heq
      exact heq ▸ htree.1
    · exact ih htree.2.2 h
  | folder other inside rest _ ih =>
    rw [get?] at h
    split at h
    · rename_i heq
      exact heq ▸ htree.1
    · exact ih htree.2.2.2 h

theorem isTree_of_get? (htree : d.IsTree) (h : d.get? name = some (.folder inside)) :
    inside.IsTree := by
  induction d with
  | empty => cases h
  | file other content rest ih =>
    rw [get?] at h
    split at h
    · cases h
    · exact ih htree.2.2 h
  | folder other sub rest _ ih =>
    rw [get?] at h
    split at h
    · cases h
      exact htree.2.2.1
    · exact ih htree.2.2.2 h

/-- A text that is the name of an entry is one piece of a path. -/
theorem isName_of_isEntryName {text : String} (h : IsEntryName (Utf8.encode text)) :
    IsName text.toList ∧ '/' ∉ text.toList := by
  obtain ⟨⟨hempty, hhere, hparent, hslash, -⟩, -⟩ := h
  have hne : ∀ other : String, Utf8.encode text ≠ Utf8.encode other →
      text.toList ≠ other.toList := fun other hother heq =>
    hother (congrArg Utf8.encode (String.toList_injective heq))
  refine ⟨⟨hne "" hempty, hne "." hhere, hne ".." hparent⟩, fun hmem => hslash ?_⟩
  exact List.mem_flatMap.mpr ⟨'/', hmem, by decide⟩

/-! ## Places -/

/-- What a directory lies in is a directory. -/
theorem at?_cons_eq_folder_iff :
    d.at? (name :: names) = some (.folder sub) ↔
      ∃ inside, d.get? name = some (.folder inside) ∧ inside.at? names = some (.folder sub) := by
  rw [at?]
  split
  · rename_i inside hget
    simp [hget]
  · rename_i content hget
    split <;> simp [hget]
  · rename_i hget
    simp [hget]

theorem at?_append_eq_folder_iff :
    d.at? (place ++ names) = some (.folder sub) ↔
      ∃ inside, d.at? place = some (.folder inside) ∧ inside.at? names = some (.folder sub) := by
  induction place generalizing d with
  | nil => simp
  | cons first place ih =>
    simp only [List.cons_append, at?_cons_eq_folder_iff, ih]
    constructor
    · rintro ⟨next, hnext, inside, hplace, hnames⟩
      exact ⟨inside, ⟨next, hnext, hplace⟩, hnames⟩
    · rintro ⟨inside, ⟨next, hnext, hplace⟩, hnames⟩
      exact ⟨next, hnext, inside, hplace, hnames⟩

/-- What has a name lies in a directory. -/
theorem at?_concat_eq_file_iff :
    d.at? (place ++ [name]) = some (.file content) ↔
      ∃ sub, d.at? place = some (.folder sub) ∧ sub.get? name = some (.file content) := by
  induction place generalizing d with
  | nil =>
    rw [List.nil_append]
    cases hget : d.get? name with
    | none => simp [at?, hget]
    | some node => cases node <;> simp [at?, hget]
  | cons first place ih =>
    simp only [at?_cons_eq_folder_iff, List.cons_append]
    rw [at?]
    cases d.get? first with
    | none => simp
    | some node =>
      cases node with
      | file other => simp
      | folder inside => simp [ih]

theorem isTree_of_at? (htree : d.IsTree) (h : d.at? names = some (.folder sub)) : sub.IsTree := by
  induction names generalizing d with
  | nil =>
    cases h
    exact htree
  | cons name names ih =>
    obtain ⟨inside, hget, hnames⟩ := at?_cons_eq_folder_iff.mp h
    exact ih (isTree_of_get? htree hget) hnames

theorem isEntryName_of_at? (htree : d.IsTree) (h : d.at? names = some (.folder sub)) :
    ∀ name ∈ names, IsEntryName name := by
  induction names generalizing d with
  | nil => exact fun _ hname => absurd hname List.not_mem_nil
  | cons first names ih =>
    obtain ⟨inside, hget, hnames⟩ := at?_cons_eq_folder_iff.mp h
    intro name hname
    rcases List.mem_cons.mp hname with rfl | hname
    · exact isEntryName_of_get? htree hget
    · exact ih (isTree_of_get? htree hget) hnames name hname

/-! ## Ways down -/

/-- Whether names lead down to a directory, each of them one that is entered. -/
def Enters (isEntered : FileName → Bool) (d : Directory) (names : List FileName)
    (sub : Directory) : Prop :=
  d.at? names = some (.folder sub) ∧ ∀ name ∈ names, isEntered name = true

variable {isEntered : FileName → Bool} {path : List UInt8}

@[simp] theorem enters_nil_iff : d.Enters isEntered [] sub ↔ sub = d := by
  simp only [Enters, at?_nil, Option.some.injEq, Node.folder.injEq, List.not_mem_nil,
    false_implies, implies_true, and_true]
  exact eq_comm

theorem enters_cons_iff :
    d.Enters isEntered (name :: names) sub ↔
      isEntered name = true ∧
        ∃ inside, d.get? name = some (.folder inside) ∧ inside.Enters isEntered names sub := by
  simp only [Enters, at?_cons_eq_folder_iff, List.forall_mem_cons]
  constructor
  · rintro ⟨⟨inside, hget, hnames⟩, hname, hall⟩
    exact ⟨hname, inside, hget, hnames, hall⟩
  · rintro ⟨hname, inside, hget, hnames, hall⟩
    exact ⟨⟨inside, hget, hnames⟩, hname, hall⟩

theorem enters_append_iff :
    d.Enters isEntered (place ++ names) sub ↔
      ∃ inside, d.Enters isEntered place inside ∧ inside.Enters isEntered names sub := by
  simp only [Enters, at?_append_eq_folder_iff, List.forall_mem_append]
  constructor
  · rintro ⟨⟨inside, hplace, hnames⟩, hfront, hrest⟩
    exact ⟨inside, ⟨hplace, hfront⟩, hnames, hrest⟩
  · rintro ⟨inside, ⟨hplace, hfront⟩, hnames, hrest⟩
    exact ⟨⟨inside, hplace, hnames⟩, hfront, hrest⟩

/-- No way leads down through a file. -/
theorem enters_file_iff (hrest : d.get? name = none) (hnames : names ≠ []) :
    (file name content d).Enters isEntered names sub ↔ d.Enters isEntered names sub := by
  obtain ⟨first, names, rfl⟩ := List.exists_cons_of_ne_nil hnames
  rw [enters_cons_iff, enters_cons_iff, get?]
  split
  · rename_i heq
    subst heq
    simp [hrest]
  · rfl

/-- A way down leads through the first directory or through another one. -/
theorem enters_folder_iff (hrest : d.get? name = none) (hnames : names ≠ []) :
    (folder name inside d).Enters isEntered names sub ↔
      (∃ below, names = name :: below ∧ isEntered name = true ∧
        inside.Enters isEntered below sub) ∨ d.Enters isEntered names sub := by
  obtain ⟨first, names, rfl⟩ := List.exists_cons_of_ne_nil hnames
  rw [enters_cons_iff, enters_cons_iff, get?]
  split
  · rename_i heq
    subst heq
    simp [hrest]
  · rename_i hne
    simp [Ne.symm hne]

theorem le_length_entryPath (path : List UInt8) (name : FileName) :
    path.length + name.length ≤ (entryPath path name).length := by
  rw [entryPath]
  split
  · exact Nat.le_of_eq List.length_append.symm
  · rw [List.length_append, List.length_cons]
    omega

/-- Whether the paths of all directories that are entered on the way down from a path have at most
some length. -/
def InReach (isEntered : FileName → Bool) (limit : Nat) (path : List UInt8) (d : Directory) :
    Prop :=
  ∀ names sub, d.Enters isEntered names sub → (names.foldl entryPath path).length ≤ limit

theorem firstTooLong?_folder_eq_none_iff :
    (folder name inside rest).firstTooLong? isEntered path = none ↔
      (isEntered name = true → (entryPath path name).length ≤ longestPath ∧
        inside.firstTooLong? isEntered (entryPath path name) = none) ∧
      rest.firstTooLong? isEntered path = none := by
  rw [firstTooLong?]
  by_cases hname : isEntered name = true
  · by_cases hlong : longestPath < (entryPath path name).length
    · simp [hname, hlong, Nat.not_le.mpr hlong]
    · simp [hname, hlong, Nat.not_lt.mp hlong]
  · simp [hname]

/-- No path is too long exactly if the paths of all ways down are short enough. -/
theorem firstTooLong?_eq_none_iff (htree : d.IsTree) :
    d.firstTooLong? isEntered path = none ↔ ∀ names sub, names ≠ [] →
      d.Enters isEntered names sub → (names.foldl entryPath path).length ≤ longestPath := by
  induction d generalizing path with
  | empty =>
    refine iff_of_true rfl fun names sub hnames henters => ?_
    obtain ⟨first, names, rfl⟩ := List.exists_cons_of_ne_nil hnames
    obtain ⟨-, inside, hget, -⟩ := enters_cons_iff.mp henters
    exact nomatch hget
  | file name content rest ih =>
    rw [firstTooLong?, ih htree.2.2]
    refine forall₃_congr fun names sub hnames => ?_
    rw [enters_file_iff htree.2.1 hnames]
  | folder name inside rest ihinside ihrest =>
    rw [firstTooLong?_folder_eq_none_iff, ihinside htree.2.2.1, ihrest htree.2.2.2]
    constructor
    · rintro ⟨hinside, hrest⟩ names sub hnames henters
      rcases (enters_folder_iff htree.2.1 hnames).mp henters with
        ⟨below, rfl, hname, hbelow⟩ | henters
      · obtain ⟨hfirst, hall⟩ := hinside hname
        by_cases hnil : below = []
        · subst hnil
          exact hfirst
        · exact hall below sub hnil hbelow
      · exact hrest names sub hnames henters
    · intro hall
      have hfolder : ∀ below sub, isEntered name = true → inside.Enters isEntered below sub →
          (below.foldl entryPath (entryPath path name)).length ≤ longestPath := by
        intro below sub hname hbelow
        have hne := List.cons_ne_nil name below
        exact hall (name :: below) sub hne
          ((enters_folder_iff htree.2.1 hne).mpr (Or.inl ⟨below, rfl, hname, hbelow⟩))
      refine ⟨fun hname => ⟨?_, fun below sub _ => hfolder below sub hname⟩, ?_⟩
      · exact hfolder [] inside hname (enters_nil_iff.mpr rfl)
      · intro names sub hnames henters
        exact hall names sub hnames ((enters_folder_iff htree.2.1 hnames).mpr (Or.inr henters))

theorem inReach_iff (htree : d.IsTree) :
    d.InReach isEntered longestPath path ↔
      path.length ≤ longestPath ∧ d.firstTooLong? isEntered path = none := by
  rw [firstTooLong?_eq_none_iff htree]
  constructor
  · intro hreach
    exact ⟨hreach [] d (enters_nil_iff.mpr rfl), fun names sub _ => hreach names sub⟩
  · rintro ⟨hpath, hbelow⟩ names sub henters
    by_cases hnil : names = []
    · rw [hnil]
      exact hpath
    · exact hbelow names sub hnil henters

/-- What is in reach from a path is in reach from every directory on the way. -/
theorem InReach.of_enters {limit : Nat} (h : d.InReach isEntered limit path)
    (hsub : d.Enters isEntered names sub) :
    sub.InReach isEntered limit (names.foldl entryPath path) := by
  intro below inner henters
  rw [← List.foldl_append]
  exact h (names ++ below) inner (enters_append_iff.mpr ⟨sub, hsub, henters⟩)

/-! ## Following names -/

/-- A name leads to an entry of a directory, be it there or not. -/
theorem follow_eq_ok_iff {text : String} (htext : IsName text.toList) :
    tree.follow place text.toList = .ok found ↔
      (∃ d, tree.at? place = some (.folder d)) ∧ (Utf8.encode text).length ≤ longestName ∧
        found = place ++ [Utf8.encode text] := by
  rw [follow]
  split
  · simp_all
  · simp_all
  · rename_i d hplace
    rw [if_neg (not_or_intro htext.1 htext.2.1), if_neg htext.2.2, String.ofList_toList]
    dsimp only
    split
    · simp_all [Nat.not_le.mpr]
    · simp_all [Nat.not_lt.mp, eq_comm]

/-- Names lead down, if they lead anywhere. -/
theorem eq_append_of_foldlM_follow {texts : List String}
    (htexts : ∀ text ∈ texts, IsName text.toList)
    (h : (texts.map String.toList).foldlM tree.follow place = .ok found) :
    found = place ++ FileName.ofTexts texts := by
  induction texts generalizing place with
  | nil =>
    cases h
    exact (List.append_nil _).symm
  | cons text texts ih =>
    rw [List.map_cons, List.foldlM_cons] at h
    cases hstep : tree.follow place text.toList with
    | error e =>
      rw [hstep] at h
      exact nomatch h
    | ok next =>
      rw [hstep] at h
      obtain ⟨-, -, rfl⟩ := (follow_eq_ok_iff (htexts text List.mem_cons_self)).mp hstep
      rw [ih (fun t ht => htexts t (List.mem_cons_of_mem text ht)) h, FileName.ofTexts_cons,
        List.append_assoc, List.singleton_append]

/-- The names of a directory lead to it. -/
theorem foldlM_follow_of_at? {texts : List String} (htree : tree.IsTree)
    (h : tree.at? (place ++ FileName.ofTexts texts) = some (.folder d)) :
    (texts.map String.toList).foldlM tree.follow place =
      .ok (place ++ FileName.ofTexts texts) := by
  induction texts generalizing place with
  | nil =>
    rw [FileName.ofTexts_nil, List.append_nil]
    rfl
  | cons text texts ih =>
    have hentry : IsEntryName (Utf8.encode text) := isEntryName_of_at? htree h _
      (List.mem_append_right place List.mem_cons_self)
    obtain ⟨inside, hplace, -⟩ := at?_append_eq_folder_iff.mp h
    have hstep : tree.follow place text.toList = .ok (place ++ [Utf8.encode text]) :=
      (follow_eq_ok_iff (isName_of_isEntryName hentry).1).mpr ⟨⟨inside, hplace⟩, hentry.2, rfl⟩
    rw [FileName.ofTexts_cons, List.append_cons] at h ⊢
    rw [List.map_cons, List.foldlM_cons, hstep]
    exact ih h

/-! ## Following a path below another one -/

/-- The piece after a slash at the end of a path leads nowhere, but it needs a directory, and so
does the next piece. -/
theorem follow_nil_bind (tree : Directory) (place : List FileName) (piece : List Char) :
    (tree.follow place [] >>= fun next => tree.follow next piece) = tree.follow place piece := by
  rw [follow]
  split
  · rename_i hplace
    rw [follow, hplace]
    rfl
  · rename_i content hplace
    rw [follow, hplace]
    rfl
  · rfl

theorem foldlM_follow_nil_bind {pieces : List (List Char)} (hpieces : pieces ≠ [])
    (tree : Directory) (place : List FileName) :
    (tree.follow place [] >>= fun next => pieces.foldlM tree.follow next) =
      pieces.foldlM tree.follow place := by
  obtain ⟨piece, pieces, rfl⟩ := List.exists_cons_of_ne_nil hpieces
  simp only [List.foldlM_cons]
  rw [← bind_assoc, follow_nil_bind]

theorem resolve_of_isAbsolute {path : String} (h : isAbsolute path = true) :
    tree.resolve place path = (splitOn '/' path.toList).foldlM tree.follow [] := by
  rw [resolve, isEmpty_of_isAbsolute h, if_neg Bool.false_ne_true, if_pos h]

/-- A path below another one is followed from where the other leads. -/
theorem resolve_join {base child : String} (hbase : isAbsolute base = true)
    (hchild : isAbsolute child = false) :
    tree.resolve place (Path.join base child) = tree.resolve place base >>= fun found =>
      (splitOn '/' child.toList).foldlM tree.follow found := by
  have hne : base ≠ "" := String.isEmpty_eq_false_iff.mp (isEmpty_of_isAbsolute hbase)
  obtain ⟨front, hfront, hjoin⟩ := toList_join hne hchild
  rw [resolve_of_isAbsolute (isAbsolute_join hbase), resolve_of_isAbsolute hbase, hjoin,
    splitOn_append_cons, List.foldlM_append]
  rcases hfront with hfront | hfront
  · rw [hfront]
  · rw [hfront, splitOn_append_cons, List.foldlM_append, bind_assoc]
    congr 1
    funext next
    have hlast : (splitOn '/' []).foldlM tree.follow next = tree.follow next [] :=
      bind_pure (tree.follow next [])
    rw [hlast]
    exact (foldlM_follow_nil_bind (splitWhere_ne_nil _ _) tree next).symm

end Directory
end ProtoBuild
