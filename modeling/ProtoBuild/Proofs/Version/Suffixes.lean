import Mathlib.Data.List.Chain
import ProtoBuild.Proofs.Version.Branches

/-!
# Suffixes in normal form

Branches are named as people like, and a version may have few characters only.  So the name of a
branch goes through several steps before it becomes a suffix, and a later step may undo what an
earlier one has done: where a long name is cut there may be a hyphen at the end again.

`Tidy` says what a suffix looks like without going through the steps.  Every suffix is tidy, and
the name of a branch is its own suffix exactly if it is tidy (`suffixChars_eq_self_iff`).  So
nothing is changed without need, and a second time nothing is changed at all.  A tidy suffix behind
a valid version gives a valid version (`tidy_and_valid`).

## Why hyphens are said to be apart

That no two hyphens follow one another is a statement about neighbours, and neighbours stay
neighbours when something is cut off at the end.  So `List.IsChain` goes through both cuts without
an argument, and so do the statements about the first character and about all of them: what is
left is a prefix (`pruned_isPrefix`).  Only the last character has to be looked at again.
-/

namespace ProtoBuild
namespace Version

open Text

variable {cs : List Char} {c : Char} {afterHyphen : Bool} {base branch version : String}

/-! ## The normal form -/

/-- A small letter, a digit, or one of three marks. -/
def IsPlain (c : Char) : Prop :=
  ('a' ≤ c ∧ c ≤ 'z') ∨ ('0' ≤ c ∧ c ≤ '9') ∨ c = '.' ∨ c = '_' ∨ c = '-'

/-- Two characters that are not both hyphens. -/
def Apart (c d : Char) : Prop :=
  ¬ (c = '-' ∧ d = '-')

instance : DecidablePred IsPlain := fun _ => inferInstanceAs (Decidable (_ ∨ _))

instance : DecidableRel Apart := fun _ _ => inferInstanceAs (Decidable ¬ _)

/-- A suffix in normal form: between one and thirty plain characters, with hyphens only between
others and one at a time. -/
structure Tidy (cs : List Char) : Prop where
  length_pos : 1 ≤ cs.length
  length_le : cs.length ≤ 30
  plain : ∀ c ∈ cs, IsPlain c
  head : cs.head? ≠ some '-'
  last : cs.getLast? ≠ some '-'
  apart : cs.IsChain Apart

/-! ## Capitals -/

/-- The plain characters are the legal ones without the capitals. -/
theorem isPlain_iff : IsPlain c ↔ suffixChar c = true ∧ ¬ ('A' ≤ c ∧ c ≤ 'Z') := by
  have hdot : c = '.' ↔ c.toNat = 46 := by rw [← Char.toNat_inj]; rfl
  have hline : c = '_' ↔ c.toNat = 95 := by rw [← Char.toNat_inj]; rfl
  have hhyphen : c = '-' ↔ c.toNat = 45 := by rw [← Char.toNat_inj]; rfl
  simp only [IsPlain, suffixChar, isAsciiAlphanumeric, isAsciiDigit, Bool.or_eq_true,
    Bool.and_eq_true, decide_eq_true_eq, beq_iff_eq, Char.le_def, UInt32.le_iff_toNat_le, hdot,
    hline, hhyphen]
  show (97 ≤ c.toNat ∧ c.toNat ≤ 122) ∨ (48 ≤ c.toNat ∧ c.toNat ≤ 57) ∨ _ ↔
    _ ∧ ¬ (65 ≤ c.toNat ∧ c.toNat ≤ 90)
  omega

theorem toLower_of_not_capital (h : ¬ ('A' ≤ c ∧ c ≤ 'Z')) : c.toLower = c :=
  dif_neg h

theorem isPlain_toLower (h : suffixChar c = true) : IsPlain c.toLower := by
  by_cases hcapital : 'A' ≤ c ∧ c ≤ 'Z'
  · have hsmall : c.toLower.toNat = (c.toNat + 32) % 2 ^ 32 :=
      congrArg Char.toNat (dif_pos hcapital)
    have hrange : 65 ≤ c.toNat ∧ c.toNat ≤ 90 := hcapital
    have hletter : 97 ≤ c.toLower.toNat ∧ c.toLower.toNat ≤ 122 := by omega
    exact Or.inl hletter
  · rw [toLower_of_not_capital hcapital]
    exact isPlain_iff.mpr ⟨h, hcapital⟩

/-! ## Hyphens -/

theorem collapse_sublist (afterHyphen : Bool) (cs : List Char) :
    (collapse afterHyphen cs).Sublist cs := by
  fun_induction collapse afterHyphen cs with
  | case1 => exact .slnil
  | case2 c cs hc ih => exact ih.cons c
  | case3 afterHyphen c cs hc hafter ih =>
    rw [beq_iff_eq.mp hc]
    exact ih.cons_cons '-'
  | case4 afterHyphen c cs hc ih => exact ih.cons_cons c

theorem apart_collapse (afterHyphen : Bool) (cs : List Char) :
    (collapse afterHyphen cs).IsChain Apart ∧
      (afterHyphen = true → (collapse afterHyphen cs).head? ≠ some '-') := by
  fun_induction collapse afterHyphen cs with
  | case1 afterHyphen => exact ⟨.nil, fun _ => nofun⟩
  | case2 c cs hc ih => exact ih
  | case3 afterHyphen c cs hc hafter ih =>
    obtain ⟨hchain, hhead⟩ := ih
    refine ⟨List.isChain_cons.mpr ⟨fun d hd heq => ?_, hchain⟩, fun h => absurd h hafter⟩
    rw [heq.2] at hd
    exact hhead rfl hd
  | case4 afterHyphen c cs hc ih =>
    have hne : c ≠ '-' := mt beq_iff_eq.mpr hc
    exact ⟨List.isChain_cons.mpr ⟨fun d _ heq => hne heq.1, ih.1⟩,
      fun _ h => hne (Option.some.inj h)⟩

/-- Hyphens that are apart are all kept. -/
theorem collapse_eq_self (h : cs.IsChain Apart)
    (hhead : afterHyphen = true → cs.head? ≠ some '-') : collapse afterHyphen cs = cs := by
  fun_induction collapse afterHyphen cs with
  | case1 => rfl
  | case2 c cs hc ih => exact absurd (congrArg some (beq_iff_eq.mp hc)) (hhead rfl)
  | case3 afterHyphen c cs hc hafter ih =>
    obtain rfl := beq_iff_eq.mp hc
    obtain ⟨hnext, htail⟩ := List.isChain_cons.mp h
    rw [ih htail fun _ hd => hnext '-' hd ⟨rfl, rfl⟩]
  | case4 afterHyphen c cs hc ih =>
    rw [ih (List.isChain_cons.mp h).2 fun hfalse => nomatch hfalse]

theorem trimHyphens_isPrefix (cs : List Char) : trimHyphens cs <+: cs :=
  List.rdropWhile_prefix _ cs

theorem getLast?_trimHyphens (cs : List Char) : (trimHyphens cs).getLast? ≠ some '-' := by
  intro h
  by_cases hnil : trimHyphens cs = []
  · rw [hnil] at h
    exact nomatch h
  · obtain ⟨front, c, heq, hc⟩ := exists_trimHyphens_eq_concat hnil
    rw [heq, List.getLast?_concat] at h
    exact hc (Option.some.inj h)

theorem trimHyphens_eq_self (h : cs.getLast? ≠ some '-') : trimHyphens cs = cs := by
  refine List.rdropWhile_eq_self_iff.mpr fun hne hlast => h ?_
  rw [List.getLast?_eq_some_getLast hne, beq_iff_eq.mp hlast]

/-! ## What is left of a name -/

/-- The characters of a branch name, with a hyphen for each that no suffix may have. -/
def legalChars (branch : List Char) : List Char :=
  (withoutKind branch).map fun c => if suffixChar c then c else '-'

/-- What is left of a text once hyphens and all that is too much are cut off. -/
def pruned (cs : List Char) : List Char :=
  trimHyphens ((trimHyphens (collapse true cs)).take maxSuffix)

theorem suffixChars_eq (branch : List Char) :
    suffixChars branch =
      if (pruned (legalChars branch)).isEmpty then "unknown".toList
      else (pruned (legalChars branch)).map Char.toLower :=
  rfl

theorem suffixChar_of_mem_legalChars {branch : List Char} (h : c ∈ legalChars branch) :
    suffixChar c = true := by
  obtain ⟨d, -, rfl⟩ := List.mem_map.mp h
  split
  · assumption
  · rfl

/-- Behind the hyphens at the front, all that is cut off is cut off at the end. -/
theorem pruned_isPrefix (cs : List Char) : pruned cs <+: collapse true cs :=
  ((trimHyphens_isPrefix _).trans (List.take_prefix _ _)).trans (trimHyphens_isPrefix _)

theorem isChain_pruned (cs : List Char) : (pruned cs).IsChain Apart := by
  obtain ⟨rest, hrest⟩ := pruned_isPrefix cs
  have hchain := (apart_collapse true cs).1
  rw [← hrest] at hchain
  exact hchain.left_of_append

theorem length_pruned_le (cs : List Char) : (pruned cs).length ≤ 30 :=
  (trimHyphens_isPrefix _).length_le.trans (List.length_take_le maxSuffix _)

theorem head?_pruned (cs : List Char) : (pruned cs).head? ≠ some '-' := by
  intro h
  obtain ⟨rest, hrest⟩ := pruned_isPrefix cs
  refine (apart_collapse true cs).2 rfl ?_
  rw [← hrest, List.head?_append, h]
  rfl

/-! ## Suffixes are tidy -/

/-- Capitals written small make no hyphen and take none away. -/
theorem tidy_map_toLower (hne : cs ≠ []) (hlength : cs.length ≤ 30)
    (hlegal : ∀ c ∈ cs, suffixChar c = true) (hhead : cs.head? ≠ some '-')
    (hlast : cs.getLast? ≠ some '-') (hapart : cs.IsChain Apart) :
    Tidy (cs.map Char.toLower) where
  length_pos := by rwa [List.length_map, Nat.one_le_iff_ne_zero, ne_eq, List.length_eq_zero_iff]
  length_le := by rwa [List.length_map]
  plain := List.forall_mem_map.mpr fun c hc => isPlain_toLower (hlegal c hc)
  head := by
    rw [List.head?_map, ne_eq, Option.map_eq_some_iff]
    rintro ⟨c, hc, hlower⟩
    exact hhead (toLower_eq_hyphen_iff.mp hlower ▸ hc)
  last := by
    rw [List.getLast?_map, ne_eq, Option.map_eq_some_iff]
    rintro ⟨c, hc, hlower⟩
    exact hlast (toLower_eq_hyphen_iff.mp hlower ▸ hc)
  apart := by
    refine (List.isChain_map Char.toLower).mpr (hapart.imp fun c d hcd heq => hcd ?_)
    exact ⟨toLower_eq_hyphen_iff.mp heq.1, toLower_eq_hyphen_iff.mp heq.2⟩

theorem tidy_unknown : Tidy "unknown".toList where
  length_pos := by decide
  length_le := by decide
  plain := by simp [IsPlain]
  head := by decide
  last := by decide
  apart := by decide

/-- **Every suffix is tidy.** -/
theorem tidy_suffixChars (branch : List Char) : Tidy (suffixChars branch) := by
  rw [suffixChars_eq]
  split
  · exact tidy_unknown
  · rename_i hne
    have hsub : ∀ c ∈ pruned (legalChars branch), c ∈ legalChars branch := fun c hc =>
      (collapse_sublist true _).subset ((pruned_isPrefix _).subset hc)
    exact tidy_map_toLower (mt List.isEmpty_iff.mpr hne) (length_pruned_le _)
      (fun c hc => suffixChar_of_mem_legalChars (hsub c hc)) (head?_pruned _)
      (getLast?_trimHyphens _) (isChain_pruned _)

theorem tidy_branchSuffix (branch : String) : Tidy (branchSuffix branch).toList := by
  rw [branchSuffix, String.toList_ofList]
  exact tidy_suffixChars branch.toList

/-! ## What is tidy is its own suffix -/

namespace Tidy

theorem ne_nil (h : Tidy cs) : cs ≠ [] :=
  List.length_pos_iff.mp h.length_pos

theorem legal (h : Tidy cs) : ∀ c ∈ cs, suffixChar c = true :=
  fun c hc => (isPlain_iff.mp (h.plain c hc)).1

/-- Each of the kinds has a slash, and a tidy text has none. -/
theorem withoutKind_eq (h : Tidy cs) : withoutKind cs = cs := by
  have hslash : ∀ kind ∈ branchKinds, '/' ∈ kind := by decide
  have hnone : (branchKinds.findSome? fun kind => after? kind cs) = none := by
    refine List.findSome?_eq_none_iff.mpr fun kind hkind => ?_
    rw [after?, Option.eq_none_iff_forall_ne_some]
    intro rest hrest
    rw [List.isPrefixOf?_eq_some_iff_append_eq] at hrest
    have hmem : '/' ∈ cs := hrest ▸ List.mem_append_left rest (hslash kind hkind)
    exact absurd (h.plain '/' hmem) (by decide)
  rw [withoutKind, hnone, Option.getD_none]

theorem legalChars_eq (h : Tidy cs) : legalChars cs = cs := by
  have hlegal : ∀ c ∈ cs, (if suffixChar c then c else '-') = c := fun c hc =>
    if_pos (h.legal c hc)
  rw [legalChars, h.withoutKind_eq, List.map_congr_left hlegal, List.map_id']

theorem pruned_eq (h : Tidy cs) : pruned cs = cs := by
  have htake : cs.take maxSuffix = cs := List.take_of_length_le h.length_le
  rw [pruned, collapse_eq_self h.apart fun _ => h.head, trimHyphens_eq_self h.last, htake,
    trimHyphens_eq_self h.last]

theorem map_toLower_eq (h : Tidy cs) : cs.map Char.toLower = cs := by
  have hlower : ∀ c ∈ cs, c.toLower = c := fun c hc =>
    toLower_of_not_capital (isPlain_iff.mp (h.plain c hc)).2
  rw [List.map_congr_left hlower, List.map_id']

end Tidy

theorem suffixChars_eq_self_iff : suffixChars cs = cs ↔ Tidy cs := by
  refine ⟨fun h => h ▸ tidy_suffixChars cs, fun h => ?_⟩
  rw [suffixChars_eq, h.legalChars_eq, h.pruned_eq, if_neg (mt List.isEmpty_iff.mp h.ne_nil),
    h.map_toLower_eq]

theorem branchSuffix_eq_self_iff : branchSuffix branch = branch ↔ Tidy branch.toList := by
  rw [← suffixChars_eq_self_iff, branchSuffix, ← String.toList_inj, String.toList_ofList]

/-! ## Valid versions -/

/-- Legal characters behind a hyphen go on a suffix, or are one if there was none. -/
theorem isValid_append {suffix : List Char} (h : isValid base = true) (hne : suffix ≠ [])
    (hlegal : ∀ c ∈ suffix, suffixChar c = true)
    (hversion : version.toList = base.toList ++ '-' :: suffix) : isValid version = true := by
  have hhyphen : suffixChar '-' = true := rfl
  rw [isValid] at h ⊢
  split at h
  · rename_i hnone
    rw [hversion, splitFirst?_append_cons (splitFirst?_eq_none_iff.mp hnone)]
    simpa [hne, h] using hlegal
  · rename_i core old hsplit
    obtain ⟨hbase, hcore⟩ := splitFirst?_eq_some_iff.mp hsplit
    rw [hversion, hbase, List.append_assoc, List.cons_append, splitFirst?_append_cons hcore]
    simp only [Bool.and_eq_true, Bool.not_eq_true', List.isEmpty_eq_false_iff, List.all_eq_true,
      List.forall_mem_append, List.forall_mem_cons] at h ⊢
    exact ⟨⟨h.1.1, by simp⟩, h.2, hhyphen, hlegal⟩

/-- **Suffixes in normal form.**  Whatever a branch is called, its suffix is tidy; the name is its
own suffix exactly if it is tidy, so the suffix of a suffix is the same; and a valid version stays
valid when it names the branch. -/
theorem tidy_and_valid (branch : String) :
    Tidy (branchSuffix branch).toList ∧
      branchSuffix (branchSuffix branch) = branchSuffix branch ∧
      (branchSuffix branch = branch ↔ Tidy branch.toList) ∧
      ∀ base, isValid base = true → isValid (onBranch base branch) = true := by
  have htidy : ∀ branch, Tidy (branchSuffix branch).toList := tidy_branchSuffix
  refine ⟨htidy branch, branchSuffix_eq_self_iff.mpr (htidy branch), branchSuffix_eq_self_iff,
    fun base hbase => ?_⟩
  have hsuffix : Tidy (suffixOf branch).toList := htidy _
  exact isValid_append hbase hsuffix.ne_nil hsuffix.legal (toList_onBranch base branch)

/-- A name that is cut right behind a hyphen, on a version that has a suffix already. -/
theorem tidy_and_valid_of_cut :
    isValid "1.0.0-rc.1" = true ∧
      branchSuffix "feature/Abcdefghijklmnopqrstuvwxyz123//x" = "abcdefghijklmnopqrstuvwxyz123" ∧
      branchSuffix "abcdefghijklmnopqrstuvwxyz123" = "abcdefghijklmnopqrstuvwxyz123" ∧
      isValid (onBranch "1.0.0-rc.1" "feature/Abcdefghijklmnopqrstuvwxyz123//x") = true := by
  have hbase : isValid "1.0.0-rc.1" = true := by decide
  have hsuffix : branchSuffix "feature/Abcdefghijklmnopqrstuvwxyz123//x" =
      "abcdefghijklmnopqrstuvwxyz123" := by decide
  obtain ⟨-, hagain, -, hvalid⟩ := tidy_and_valid "feature/Abcdefghijklmnopqrstuvwxyz123//x"
  rw [hsuffix] at hagain
  exact ⟨hbase, hsuffix, hagain, hvalid _ hbase⟩

end Version
end ProtoBuild
