import Mathlib.Data.List.Forall2
import ProtoBuild.Coordinates

/-!
# Units whose packages have one place

The place of a package is made of the path of its unit, or of the name of the lake for the lake
itself, with another character in place of each slash.  So the path cannot be read off the place
again.  `eq_iff_merges` says how much is lost: the packages of two units in one language have the
same place exactly if the names of the units are equal up to slashes of the one that are
separators in the other.

All else that a place is made of is the same for all units, and of a label only the language
matters (`eq_sibling_of_ofLabel?`).
-/

namespace ProtoBuild

/-- Two characters that are written alike once a slash is written as a separator. -/
def Text.Merges (sep c d : Char) : Prop :=
  c = d ∨ c = '/' ∧ d = sep ∨ c = sep ∧ d = '/'

/-- Texts are written alike exactly if their characters are, one by one. -/
theorem Text.replaceChar_eq_iff {sep : Char} {cs ds : List Char} :
    replaceChar '/' sep cs = replaceChar '/' sep ds ↔ List.Forall₂ (Merges sep) cs ds := by
  have hchar : ∀ c d : Char,
      ((if c == '/' then sep else c) = if d == '/' then sep else d) ↔ Merges sep c d := by
    intro c d
    simp only [Merges, beq_iff_eq]
    grind
  rw [replaceChar, replaceChar, ← List.forall₂_eq_eq_eq, List.forall₂_map_left_iff,
    List.forall₂_map_right_iff]
  simp only [hchar]

/-- Texts without the separator are written alike only if they are equal. -/
theorem Text.eq_of_merges {sep : Char} {cs ds : List Char} (hcs : sep ∉ cs) (hds : sep ∉ ds)
    (h : List.Forall₂ (Merges sep) cs ds) : cs = ds := by
  induction h with
  | nil => rfl
  | @cons c d cs ds hmerges _ ih =>
    rw [List.mem_cons, not_or] at hcs hds
    rcases hmerges with rfl | ⟨-, rfl⟩ | ⟨rfl, -⟩
    · rw [ih hcs.2 hds.2]
    · exact absurd rfl hds.1
    · exact absurd rfl hcs.1

/-- What the packages of a unit are named after. -/
def Workspace.packageName (lake : Workspace) (unit : String) : String :=
  if unit = "." then lake.name else unit

namespace Artifact

variable {lake : Workspace} {unit other label label' version : String} {a b : Artifact}

/-- What stands for a slash in the place of a package. -/
def separator : Artifact → Char
  | maven .. => '-'
  | python .. => '_'
  | npm .. => '-'

/-- The place of the package of a unit in the same language. -/
def sibling (lake : Workspace) (unit version : String) (a : Artifact) : Artifact :=
  let written := String.ofList (Text.replaceChar '/' a.separator (lake.packageName unit).toList)
  match a with
  | maven .. => .maven (lake.languages.javaGroup.getD ("com." ++ lake.name)) written version
  | python .. => .python (lake.languages.pythonPrefix.getD "" ++ written) version
  | npm .. =>
    let scope := lake.languages.npmScope.getD ""
    .npm (if scope.isEmpty then written else scope ++ "/" ++ written) version

/-- The place that a publish action leaves is a matter of its unit and its language. -/
theorem eq_sibling_of_ofLabel? (h : ofLabel? lake unit label version = some a) :
    a = a.sibling lake unit version := by
  have hname : (if unit = "." then lake.name else unit) = lake.packageName unit := rfl
  simp only [ofLabel?, hname] at h
  split at h
  · exact (Option.some.inj h) ▸ rfl
  · split at h
    · exact (Option.some.inj h) ▸ rfl
    · split at h
      · exact (Option.some.inj h) ▸ rfl
      · exact nomatch h

/-- Actions of one unit leave their packages in one place if they are for one language. -/
theorem sibling_congr (h : a.language = b.language) :
    a.sibling lake unit version = b.sibling lake unit version := by
  cases a <;> cases b <;> simp [language] at h <;> rfl

theorem sibling_eq_iff (version : String) :
    a.sibling lake unit version = a.sibling lake other version ↔
      List.Forall₂ (Text.Merges a.separator) (lake.packageName unit).toList
        (lake.packageName other).toList := by
  rw [← Text.replaceChar_eq_iff]
  cases a with
  | maven => simp [sibling, separator, String.ofList_inj]
  | python => simp [sibling, separator, String.ofList_inj]
  | npm =>
    simp only [sibling, separator]
    split <;> simp [String.ofList_inj]

/-- **When two units publish to one place.**  Packages of two units in one language have the same
place exactly if the names of the units are equal up to slashes of the one that are separators in
the other.  So units below the lake without a separator in their paths have different places. -/
theorem eq_iff_merges (ha : ofLabel? lake unit label version = some a)
    (hb : ofLabel? lake other label' version = some b) (hlanguage : a.language = b.language) :
    (a = b ↔ List.Forall₂ (Text.Merges a.separator) (lake.packageName unit).toList
      (lake.packageName other).toList) ∧
    (unit ≠ other → unit ≠ "." → other ≠ "." → a.separator ∉ unit.toList →
      a.separator ∉ other.toList → a ≠ b) := by
  have hiff : a = b ↔ List.Forall₂ (Text.Merges a.separator) (lake.packageName unit).toList
      (lake.packageName other).toList := by
    rw [← sibling_eq_iff version, ← eq_sibling_of_ofLabel? ha,
      sibling_congr hlanguage, ← eq_sibling_of_ofLabel? hb]
  refine ⟨hiff, fun hne hunit hother hsep hsep' heq => hne ?_⟩
  have hmerges := hiff.mp heq
  rw [Workspace.packageName, if_neg hunit, Workspace.packageName, if_neg hother] at hmerges
  exact String.toList_inj.mp (Text.eq_of_merges hsep hsep' hmerges)

/-- A unit within another one and a unit beside it, whose packages have different places. -/
theorem ne_of_nested_of_beside :
    ofLabel? { name := "acme" } "a/b" "//a/b:b_java_publish" "1.0.0-main" =
        some (.maven "com.acme" "a-b" "1.0.0-main") ∧
      ofLabel? { name := "acme" } "a_b" "//a_b:b_maven_publish" "1.0.0-main" =
        some (.maven "com.acme" "a_b" "1.0.0-main") ∧
      maven "com.acme" "a-b" "1.0.0-main" ≠ maven "com.acme" "a_b" "1.0.0-main" := by
  have hnested : ofLabel? { name := "acme" } "a/b" "//a/b:b_java_publish" "1.0.0-main" =
      some (.maven "com.acme" "a-b" "1.0.0-main") := rfl
  have hbeside : ofLabel? { name := "acme" } "a_b" "//a_b:b_maven_publish" "1.0.0-main" =
      some (.maven "com.acme" "a_b" "1.0.0-main") := rfl
  obtain ⟨-, hne⟩ := eq_iff_merges hnested hbeside rfl
  exact ⟨hnested, hbeside, hne (by decide) (by decide) (by decide) (by decide) (by decide)⟩

/-- A slash and a hyphen are written alike, so different units of one lake do not always have
different places. -/
theorem not_always_apart :
    ¬ ∀ (lake : Workspace) (version unit other label label' : String) (a b : Artifact),
      lake.relative? unit = some unit → lake.relative? other = some other → unit ≠ other →
        ofLabel? lake unit label version = some a → ofLabel? lake other label' version = some b →
          a.language = b.language → a ≠ b := by
  intro h
  exact h { name := "acme", root := "/lake" } "1.0.0-main" "a/b" "a-b" "//a/b:b_java_publish"
    "//a-b:b_java_publish" (.maven "com.acme" "a-b" "1.0.0-main")
    (.maven "com.acme" "a-b" "1.0.0-main") rfl rfl (by decide) rfl rfl rfl rfl

end Artifact
end ProtoBuild
