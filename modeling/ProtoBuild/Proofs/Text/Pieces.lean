import ProtoBuild.Text.Split

/-!
# Pieces of a text

The cutter of this library is the one of the core library, and so is what puts pieces together
again (`splitOn_eq`, `join_eq_intercalate`).  What is known of those is known of these: cutting
respects putting texts together at a separator (`splitOn_append_cons`), and pieces without the
separator are got back (`splitOn_join`).

A cut at the first or the last separator is characterised by what it leaves, since nothing before
or behind it is a separator (`splitFirst?_eq_some_iff`, `splitLast?_eq_some_iff`).
-/

namespace ProtoBuild
namespace Text

variable {sep : Char} {cs before after piece : List Char} {pieces : List (List Char)}

/-! ## Cutting at every separator -/

theorem splitWhere_eq (cut : Char → Bool) (cs : List Char) :
    splitWhere cut cs = cs.splitOnP cut := by
  induction cs with
  | nil => rfl
  | cons c cs ih =>
    rw [splitWhere, List.splitOnP_cons_eq_if_modifyHead, ih]
    split
    · rfl
    · cases hpieces : cs.splitOnP cut with
      | nil => exact absurd hpieces (List.splitOnP_ne_nil cut cs)
      | cons piece rest => rfl

theorem splitOn_eq (sep : Char) (cs : List Char) : splitOn sep cs = List.splitOn sep cs := by
  rw [splitOn, splitWhere_eq, List.splitOn_eq_splitOnP]

theorem join_eq_intercalate (sep : Char) (pieces : List (List Char)) :
    join sep pieces = [sep].intercalate pieces := by
  induction pieces with
  | nil => rfl
  | cons piece rest ih =>
    cases rest with
    | nil => exact List.intercalate_singleton.symm
    | cons next rest =>
      rw [List.intercalate_cons_of_ne_nil (List.cons_ne_nil next rest), ← ih, List.append_assoc]
      rfl

/-- Two texts with a separator between them are cut apart. -/
theorem splitOn_append_cons (sep : Char) (cs ds : List Char) :
    splitOn sep (cs ++ sep :: ds) = splitOn sep cs ++ splitOn sep ds := by
  simp only [splitOn_eq, List.splitOn_append_cons_self]

/-- A text without a separator is one piece. -/
theorem splitOn_of_not_mem (h : sep ∉ cs) : splitOn sep cs = [cs] := by
  rw [splitOn_eq, List.splitOn_eq_singleton h]

/-- Pieces that are put together are got back. -/
theorem splitOn_join (hne : pieces ≠ []) (h : ∀ piece ∈ pieces, sep ∉ piece) :
    splitOn sep (join sep pieces) = pieces := by
  rw [splitOn_eq, join_eq_intercalate, List.splitOn_intercalate sep h hne]

/-- Without the first pieces a text is one that it ends with. -/
theorem join_suffix_join {last : List (List Char)} (h : last <:+ pieces) :
    join sep last <:+ join sep pieces := by
  induction pieces with
  | nil =>
    obtain rfl := List.suffix_nil.mp h
    exact List.suffix_rfl
  | cons piece rest ih =>
    rcases List.suffix_cons_iff.mp h with rfl | hrest
    · exact List.suffix_rfl
    · refine (ih hrest).trans ?_
      cases rest with
      | nil => exact List.nil_suffix
      | cons next rest => exact (List.suffix_cons sep _).trans (List.suffix_append piece _)

/-- The characters of the pieces are those of the text, without the separators. -/
theorem exists_mem_splitOn_iff {c : Char} :
    (∃ piece ∈ splitOn sep cs, c ∈ piece) ↔ c ∈ cs ∧ c ≠ sep := by
  induction cs with
  | nil => simp [splitOn, splitWhere]
  | cons d cs ih =>
    rw [splitOn_eq] at ih ⊢
    rw [List.splitOn_cons_eq_if_modifyHead]
    by_cases hd : d = sep
    · subst hd
      simp only [beq_self_eq_true, if_true, List.mem_cons, exists_eq_or_imp, List.not_mem_nil,
        false_or, ih]
      grind
    · obtain ⟨first, rest, hpieces⟩ := List.exists_cons_of_ne_nil (List.splitOn_ne_nil sep cs)
      rw [if_neg (mt beq_iff_eq.mp hd), hpieces, List.modifyHead_cons]
      rw [hpieces] at ih
      simp only [List.mem_cons, exists_eq_or_imp] at ih ⊢
      grind

/-- No piece has a separator. -/
theorem not_mem_of_mem_splitOn (h : piece ∈ splitOn sep cs) : sep ∉ piece := fun hmem =>
  (exists_mem_splitOn_iff.mp ⟨piece, h, hmem⟩).2 rfl

/-! ## Cutting at the first separator -/

theorem splitFirst?_eq_none_iff : splitFirst? sep cs = none ↔ sep ∉ cs := by
  induction cs with
  | nil => exact iff_of_true rfl List.not_mem_nil
  | cons c cs ih =>
    rw [splitFirst?, List.mem_cons, not_or, ← ih]
    split
    · rename_i hc
      exact iff_of_false (fun h => nomatch h) fun h => h.1 (beq_iff_eq.mp hc).symm
    · rename_i hc
      rw [Option.map_eq_none_iff, and_iff_right fun h => hc (beq_iff_eq.mpr h.symm)]

/-- A text is cut at a separator that none precedes. -/
theorem splitFirst?_append_cons (h : sep ∉ before) (after : List Char) :
    splitFirst? sep (before ++ sep :: after) = some (before, after) := by
  induction before with
  | nil => rw [List.nil_append, splitFirst?, if_pos (beq_self_eq_true sep)]
  | cons b before ih =>
    obtain ⟨hb, hbefore⟩ := not_or.mp (mt List.mem_cons.mpr h)
    rw [List.cons_append, splitFirst?, if_neg fun heq => hb (beq_iff_eq.mp heq).symm, ih hbefore,
      Option.map_some]

theorem splitFirst?_eq_some_iff :
    splitFirst? sep cs = some (before, after) ↔ cs = before ++ sep :: after ∧ sep ∉ before := by
  refine ⟨fun h => ?_, fun ⟨hcs, hbefore⟩ => hcs ▸ splitFirst?_append_cons hbefore after⟩
  induction cs generalizing before with
  | nil => exact nomatch h
  | cons c cs ih =>
    rw [splitFirst?] at h
    split at h
    · rename_i hc
      obtain ⟨rfl, rfl⟩ := Prod.mk.inj (Option.some.inj h)
      exact ⟨by rw [beq_iff_eq.mp hc, List.nil_append], List.not_mem_nil⟩
    · rename_i hc
      obtain ⟨⟨front, rest⟩, hparts, heq⟩ := Option.map_eq_some_iff.mp h
      obtain ⟨rfl, rfl⟩ := Prod.mk.inj heq
      obtain ⟨hcs, hfront⟩ := ih hparts
      refine ⟨by rw [List.cons_append, ← hcs], fun hmem => ?_⟩
      rcases List.mem_cons.mp hmem with heq | hmem
      · exact hc (beq_iff_eq.mpr heq.symm)
      · exact hfront hmem

/-! ## Cutting at the last separator -/

theorem splitLast?_eq_none_iff : splitLast? sep cs = none ↔ sep ∉ cs := by
  induction cs with
  | nil => exact iff_of_true rfl List.not_mem_nil
  | cons c cs ih =>
    rw [splitLast?, List.mem_cons, not_or, ← ih]
    cases splitLast? sep cs with
    | none => simp [ne_comm]
    | some parts => simp only [reduceCtorEq, and_false]

/-- A text is cut at a separator that none follows. -/
theorem splitLast?_append_cons (before : List Char) (h : sep ∉ after) :
    splitLast? sep (before ++ sep :: after) = some (before, after) := by
  induction before with
  | nil =>
    rw [List.nil_append, splitLast?, splitLast?_eq_none_iff.mpr h,
      if_pos (beq_self_eq_true sep)]
  | cons b before ih => rw [List.cons_append, splitLast?, ih]

theorem splitLast?_eq_some_iff :
    splitLast? sep cs = some (before, after) ↔ cs = before ++ sep :: after ∧ sep ∉ after := by
  refine ⟨fun h => ?_, fun ⟨hcs, hafter⟩ => hcs ▸ splitLast?_append_cons before hafter⟩
  induction cs generalizing before with
  | nil => exact nomatch h
  | cons c cs ih =>
    rw [splitLast?] at h
    split at h
    · rename_i parts hparts
      obtain ⟨rfl, rfl⟩ := Prod.mk.inj (Option.some.inj h)
      obtain ⟨hcs, hafter⟩ := ih hparts
      exact ⟨by rw [List.cons_append, ← hcs], hafter⟩
    · rename_i hnone
      obtain ⟨hc, hparts⟩ := Option.ite_none_right_eq_some.mp h
      obtain ⟨rfl, rfl⟩ := Prod.mk.inj (Option.some.inj hparts)
      exact ⟨by rw [beq_iff_eq.mp hc, List.nil_append], splitLast?_eq_none_iff.mp hnone⟩

end Text
end ProtoBuild
