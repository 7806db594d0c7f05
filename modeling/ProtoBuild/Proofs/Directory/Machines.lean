import ProtoBuild.MemoryMachine
import ProtoBuild.Proofs.Directory.Trees

/-!
# Machines with files

What a command is told of files is up to its machine.  `Host.Keeps` is what is relied on: the files
of the machine are a tree, it says of an absolute path that a directory is there exactly if the path
leads to one, and it lists what lies there.  The machine takes paths up to some length.  It looks at
a directory by the path of it, so what lies behind a longer path cannot be listed.

Much is left to the machine: the order of a listing, whether directories that are not to be entered
are listed and with what in them, what files hold, and the texts of errors.  A machine in memory is
one of these machines (`MemoryMachine.keeps_replies`).
-/

namespace ProtoBuild

open Directory ProtoBuild.Path Text

namespace Directory

/-- Whether an absolute path leads to a directory of a tree. -/
def LeadsTo (tree : Directory) (path : String) (d : Directory) : Prop :=
  ∃ place, tree.resolve [] path = .ok place ∧ tree.at? place = some (.folder d)

/-- Whether a listing has the files of a directory, on all ways that are entered, and every entry
once. -/
structure Lists (isEntered : FileName → Bool) (d listing : Directory) : Prop where
  isTree : listing.IsTree
  file_iff : ∀ names name, (∀ entry ∈ names, isEntered entry = true) →
    ((∃ content, listing.at? (names ++ [name]) = some (.file content)) ↔
      ∃ content, d.at? (names ++ [name]) = some (.file content))

end Directory

/-- What is known of a machine whose files are a tree and that takes paths up to some length. -/
structure Host.Keeps (answers : (q : Host.Request) → q.Answer) (tree : Directory) (limit : Nat) :
    Prop where
  isTree : tree.IsTree
  /-- A path is one of a directory if it leads to one and is not too long. -/
  kind_iff : ∀ path, isAbsolute path = true →
    (answers (.kind path) = some .folder ↔
      path.utf8ByteSize ≤ limit ∧ ∃ d, tree.LeadsTo path d)
  /-- What lies in a directory is listed if no path on the way down is too long. -/
  survey_ok : ∀ path isEntered d, isAbsolute path = true → tree.LeadsTo path d →
    d.InReach isEntered limit (Utf8.encode path) →
      ∃ listing, answers (.survey path isEntered) = .ok listing ∧ d.Lists isEntered listing
  /-- Else the machine says that it could not be listed. -/
  survey_error : ∀ path isEntered d, isAbsolute path = true → tree.LeadsTo path d →
    ¬ d.InReach isEntered limit (Utf8.encode path) →
      ∃ e, answers (.survey path isEntered) = .error e

namespace MemoryMachine

variable {m : MemoryMachine} {d : Directory} {path : String}

/-- What a machine in memory answers, as it is. -/
def replies (m : MemoryMachine) (q : Host.Request) : q.Answer :=
  (answer q m).1

theorem find_eq_ok_iff {here place : List FileName} {node : Node} :
    m.root.find here path = .ok (place, node) ↔
      path.utf8ByteSize ≤ longestPath ∧ m.root.resolve here path = .ok place ∧
        m.root.at? place = some node := by
  rw [Directory.find, placeOf, bounded]
  split
  · rename_i hlong
    refine iff_of_false ?_ fun h => Nat.not_le.mpr hlong h.1
    rintro ⟨⟩
  · rename_i hlong
    rw [and_iff_right (Nat.not_lt.mp hlong)]
    show (m.root.resolve here path >>= m.root.nodeAt) = _ ↔ _
    cases m.root.resolve here path with
    | error e =>
      refine iff_of_false ?_ ?_
      · rintro ⟨⟩
      · rintro ⟨⟨⟩, -⟩
    | ok found =>
      show m.root.nodeAt found = _ ↔ _
      rw [nodeAt, Except.ok.injEq]
      split
      · rename_i node' hnode
        rw [Except.ok.injEq, Prod.mk.injEq]
        constructor
        · rintro ⟨rfl, rfl⟩
          exact ⟨rfl, hnode⟩
        · rintro ⟨rfl, hplace⟩
          exact ⟨rfl, Option.some.inj (hnode.symm.trans hplace)⟩
      · rename_i hnone
        refine iff_of_false ?_ ?_
        · rintro ⟨⟩
        · rintro ⟨rfl, hplace⟩
          cases hnone.symm.trans hplace

theorem directoryAt_eq_ok_iff (hpath : isAbsolute path = true) :
    m.directoryAt path = .ok d ↔ path.utf8ByteSize ≤ longestPath ∧ m.root.LeadsTo path d := by
  have hfind : m.directoryAt path = .ok d ↔
      ∃ place, m.root.find (FileName.ofTexts m.here) path = .ok (place, .folder d) := by
    rw [directoryAt]
    cases m.root.find (FileName.ofTexts m.here) path with
    | error e => exact iff_of_false (fun h => nomatch h) fun ⟨_, h⟩ => nomatch h
    | ok found =>
      obtain ⟨place, content | inside⟩ := found
      · exact iff_of_false (fun h => nomatch h) fun ⟨_, h⟩ => nomatch h
      · show Except.ok inside = Except.ok d ↔ _
        simp
  rw [hfind, LeadsTo]
  simp only [find_eq_ok_iff, exists_and_left, resolve_of_isAbsolute hpath]

/-- To be a directory is to have something in it. -/
theorem kind_eq_folder_iff (m : MemoryMachine) (path : String) :
    m.kind path = some .folder ↔ ∃ d, m.directoryAt path = .ok d := by
  rw [kind, directoryAt]
  cases m.root.find (FileName.ofTexts m.here) path with
  | error e => exact iff_of_false (fun h => nomatch h) fun ⟨_, h⟩ => nomatch h
  | ok found =>
    obtain ⟨place, content | inside⟩ := found
    · exact iff_of_false (fun h => nomatch h) fun ⟨_, h⟩ => nomatch h
    · exact iff_of_true rfl ⟨inside, rfl⟩

theorem survey_eq_ok_iff (htree : m.root.IsTree) (hpath : isAbsolute path = true)
    (hd : m.root.LeadsTo path d) (isEntered : FileName → Bool) (listing : Directory) :
    m.survey path isEntered = .ok listing ↔
      d.InReach isEntered longestPath (Utf8.encode path) ∧ listing = d := by
  obtain ⟨place, hplace, hnode⟩ := hd
  rw [inReach_iff (isTree_of_at? htree hnode), Utf8.length_encode, survey]
  by_cases hlength : path.utf8ByteSize ≤ longestPath
  · rw [(directoryAt_eq_ok_iff hpath).mpr ⟨hlength, place, hplace, hnode⟩]
    dsimp only
    cases d.firstTooLong? isEntered (Utf8.encode path) with
    | none => simp [hlength, eq_comm]
    | some below => simp
  · cases hdirectory : m.directoryAt path with
    | error e => simp [hlength]
    | ok other => exact absurd ((directoryAt_eq_ok_iff hpath).mp hdirectory).1 hlength

/-- A machine in memory whose files are a tree says what they are. -/
theorem keeps_replies (htree : m.root.IsTree) : Host.Keeps m.replies m.root longestPath where
  isTree := htree
  kind_iff path hpath := by
    rw [← exists_and_left]
    refine (m.kind_eq_folder_iff path).trans (exists_congr fun d => ?_)
    exact directoryAt_eq_ok_iff hpath
  survey_ok path isEntered d hpath hd hreach := by
    obtain ⟨place, -, hnode⟩ := id hd
    exact ⟨d, (survey_eq_ok_iff htree hpath hd isEntered d).mpr ⟨hreach, rfl⟩,
      isTree_of_at? htree hnode, fun _ _ _ => Iff.rfl⟩
  survey_error path isEntered d hpath hd hreach := by
    show ∃ e, m.survey path isEntered = .error e
    cases hsurvey : m.survey path isEntered with
    | error e => exact ⟨e, rfl⟩
    | ok listing =>
      exact absurd ((survey_eq_ok_iff htree hpath hd isEntered listing).mp hsurvey).1 hreach

end MemoryMachine
end ProtoBuild
