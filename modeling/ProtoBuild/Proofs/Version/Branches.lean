import Mathlib.Data.List.DropRight
import ProtoBuild.Proofs.Text.Pieces
import ProtoBuild.Version

/-!
# Versions taken apart again

A version is put together from a base, a hyphen and the suffix of a branch, and it is taken apart
at its last hyphen.  The suffix of a branch never begins or ends with a hyphen, but it may have
some inside.  So what is put together is taken apart the same way exactly if there are none; else
the first words of the suffix count as a part of the base (`undone_iff`).

Nothing gets lost in either case: the two parts with a hyphen between them are the version.
-/

namespace ProtoBuild
namespace Version

open Text

variable {base branch : String} {cs kept last : List Char}

/-! ## The end of a suffix -/

/-- Only a hyphen is a hyphen in lower case. -/
theorem toLower_eq_hyphen_iff {c : Char} : c.toLower = '-' ↔ c = '-' := by
  delta Char.toLower
  split
  · rename_i hupper
    -- a capital letter is no hyphen, and neither is the small one
    refine iff_of_false (fun h => ?_) fun h => absurd (h ▸ hupper) (by decide)
    have hsum : (c.val.toNat + 32) % 2 ^ 32 = 45 := congrArg Char.toNat h
    have hle : 65 ≤ c.val.toNat ∧ c.val.toNat ≤ 90 := hupper
    omega
  · rfl

theorem exists_trimHyphens_eq_concat (h : trimHyphens cs ≠ []) :
    ∃ front c, trimHyphens cs = front ++ [c] ∧ c ≠ '-' := by
  have hlast := List.rdropWhile_last_not (· == '-') cs h
  exact ⟨_, _, (List.dropLast_append_getLast h).symm, mt beq_iff_eq.mpr hlast⟩

/-- A suffix is not empty, and it does not end with a hyphen. -/
theorem exists_suffixChars_eq_concat (branch : List Char) :
    ∃ front c, suffixChars branch = front ++ [c] ∧ c ≠ '-' := by
  rw [suffixChars]
  split
  · exact ⟨"unknow".toList, 'n', rfl, by decide⟩
  · rename_i hcut
    obtain ⟨front, c, heq, hc⟩ := exists_trimHyphens_eq_concat (mt List.isEmpty_iff.mpr hcut)
    refine ⟨front.map Char.toLower, c.toLower, ?_, mt toLower_eq_hyphen_iff.mp hc⟩
    rw [heq, List.map_append, List.map_singleton]

/-! ## The cut -/

/-- The suffix that a branch gives, where an unnamed branch counts as the default one. -/
def suffixOf (branch : String) : String :=
  branchSuffix (if branch.isEmpty then defaultBranch else branch)

theorem toList_onBranch (base branch : String) :
    (onBranch base branch).toList = base.toList ++ '-' :: (suffixOf branch).toList := by
  rw [onBranch, String.toList_append, String.toList_append, List.append_assoc]
  rfl

theorem exists_suffixOf_eq_concat (branch : String) :
    ∃ front c, (suffixOf branch).toList = front ++ [c] ∧ c ≠ '-' := by
  rw [suffixOf, branchSuffix, String.toList_ofList]
  exact exists_suffixChars_eq_concat _

/-- Three numbers have dots between them. -/
theorem mem_of_isCore (h : isCore cs = true) : '.' ∈ cs := by
  by_contra hdot
  rw [isCore, splitOn_of_not_mem hdot] at h
  exact nomatch h

/-- The parts of a text that begins with a dotted version and ends with something else than a
hyphen. -/
theorem exists_parts {base suffix : List Char} (hdot : '.' ∈ base) {front : List Char} {c : Char}
    (hsuffix : suffix = front ++ [c]) (hc : c ≠ '-') :
    ∃ kept last, splitLast? '-' (base ++ '-' :: suffix) = some (kept, last) ∧ last ≠ [] ∧
      '.' ∈ kept ∧ (kept = base ↔ '-' ∉ suffix) ∧ (last = suffix ↔ '-' ∉ suffix) := by
  by_cases hmem : '-' ∈ suffix
  · obtain ⟨⟨before, last⟩, hsplit⟩ :=
      Option.ne_none_iff_exists'.mp (mt splitLast?_eq_none_iff.mp (not_not_intro hmem))
    obtain ⟨heq, hlast⟩ := splitLast?_eq_some_iff.mp hsplit
    refine ⟨base ++ '-' :: before, last, ?_, ?_, List.mem_append_left _ hdot, ?_, ?_⟩
    · rw [heq, ← List.cons_append, ← List.append_assoc]
      exact splitLast?_append_cons _ hlast
    · rintro rfl
      -- the suffix would end with its last hyphen
      have hend := List.append_inj_right' (hsuffix.symm.trans heq) rfl
      exact hc (List.cons.inj hend).1
    · refine iff_of_false (fun h => ?_) (not_not_intro hmem)
      exact nomatch List.append_right_eq_self.mp h
    · refine iff_of_false (fun h => ?_) (not_not_intro hmem)
      exact hlast (h ▸ hmem)
  · refine ⟨base, suffix, splitLast?_append_cons base hmem, ?_, hdot, ?_, ?_⟩
    · rw [hsuffix]
      exact List.concat_ne_nil c front
    · exact iff_of_true rfl hmem
    · exact iff_of_true rfl hmem

theorem parts?_of_splitLast? {version : String}
    (hsplit : splitLast? '-' version.toList = some (kept, last)) (hdot : '.' ∈ kept) :
    parts? version = some (kept, last) := by
  rw [parts?, hsplit]
  exact if_pos (List.contains_iff_mem.mpr hdot)

theorem base_of_parts? {version : String} (h : parts? version = some (kept, last)) :
    Version.base version = String.ofList kept := by
  rw [Version.base, h]

theorem branch?_of_parts? {version : String} (h : parts? version = some (kept, last))
    (hlast : last ≠ []) : branch? version = some (String.ofList last) := by
  rw [branch?, h]
  exact if_neg (mt List.isEmpty_iff.mp hlast)

/-- **Versions taken apart.**  The version of three numbers and a branch is cut at its last
hyphen, and the parts are not empty.  So each part is what the version was put together from
exactly if the suffix of the branch has no hyphen. -/
theorem undone_iff (branch : String) (h : isCore base.toList = true) :
    (Version.base (onBranch base branch) = base ↔ '-' ∉ (suffixOf branch).toList) ∧
    (branch? (onBranch base branch) = some (suffixOf branch) ↔
      '-' ∉ (suffixOf branch).toList) ∧
    ∃ kept last, onBranch base branch = kept ++ "-" ++ last ∧ '-' ∉ last.toList ∧
      Version.base (onBranch base branch) = kept ∧
        branch? (onBranch base branch) = some last := by
  obtain ⟨front, c, hsuffix, hc⟩ := exists_suffixOf_eq_concat branch
  obtain ⟨kept, last, hsplit, hne, hdot, hkept, hlast⟩ :=
    exists_parts (mem_of_isCore h) hsuffix hc
  rw [← toList_onBranch] at hsplit
  have hparts := parts?_of_splitLast? hsplit hdot
  have hbase : Version.base (onBranch base branch) = String.ofList kept := base_of_parts? hparts
  have hbranch : branch? (onBranch base branch) = some (String.ofList last) :=
    branch?_of_parts? hparts hne
  obtain ⟨hwhole, hfree⟩ := splitLast?_eq_some_iff.mp hsplit
  refine ⟨?_, ?_, String.ofList kept, String.ofList last, ?_, ?_, hbase, hbranch⟩
  · rw [hbase, ← hkept, ← String.toList_inj, String.toList_ofList]
  · rw [hbranch, ← hlast, Option.some.injEq, ← String.toList_inj, String.toList_ofList]
  · rw [← String.toList_inj, hwhole]
    simp
  · rwa [String.toList_ofList]

/-- A branch of one word is got back. -/
theorem undone_of_word :
    isCore "1.0.0".toList = true ∧ Version.base (onBranch "1.0.0" "feature/Login") = "1.0.0" ∧
      branch? (onBranch "1.0.0" "feature/Login") = some "login" := by
  have hcore : isCore "1.0.0".toList = true := by decide
  have hsuffix : suffixOf "feature/Login" = "login" := by decide
  obtain ⟨hbase, hbranch, -⟩ := undone_iff "feature/Login" hcore
  rw [hsuffix] at hbase hbranch
  exact ⟨hcore, hbase.mpr (by decide), hbranch.mpr (by decide)⟩

/-- The first words of a branch are taken for a part of the base. -/
theorem not_undone_of_words :
    ¬ ∀ base branch : String, isCore base.toList = true →
      Version.base (onBranch base branch) = base ∧
        branch? (onBranch base branch) = some (suffixOf branch) := by
  intro h
  obtain ⟨hbase, -⟩ := h "1.0.0" "fix-the-thing" (by decide)
  exact absurd hbase (by decide)

end Version
end ProtoBuild
