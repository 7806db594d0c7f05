import Mathlib.Data.List.DropRight
import ProtoBuild.Proofs.Text.Pieces

/-!
# Lines that are not blank

Of a text only the lines that are not blank matter, and of these not how they are indented or
ended.  `fullLines_eq` says so: they are the pieces between line feeds, trimmed, whatever the rules
about carriage returns and about a text that ends with a line feed.  Hence the lines of two texts
on different lines are those of the one and then those of the other (`fullLines_append_cons`), and
a text has none exactly if it is blank (`fullLines_eq_nil_iff`).

Lines that are not empty and have no blank at either end (`IsPhrase`) are found again as they were
written (`fullLines_textOfLines`), and the lines that were found in a text are such lines
(`isPhrase_of_mem_fullLines`).
-/

namespace ProtoBuild
namespace Text

variable {cs ds mid : List Char}

/-- A text of blanks only. -/
def IsBlankText (cs : List Char) : Prop :=
  ∀ c ∈ cs, isBlank c = true

theorem isBlankText_nil : IsBlankText [] := fun _ hc => absurd hc List.not_mem_nil

/-! ## Trimming -/

theorem trimStart_eq_nil_iff : trimStart cs = [] ↔ IsBlankText cs :=
  List.dropWhile_eq_nil_iff

theorem trimEnd_eq_nil_iff : trimEnd cs = [] ↔ IsBlankText cs :=
  List.rdropWhile_eq_nil_iff

/-- The front of a text does not matter for what it ends with, unless all behind it is blank. -/
theorem trimEnd_append (cs : List Char) (hds : ¬ IsBlankText ds) :
    trimEnd (cs ++ ds) = cs ++ trimEnd ds := by
  have hne : ds.reverse.dropWhile isBlank ≠ [] := fun h =>
    hds (trimEnd_eq_nil_iff.mp (List.reverse_eq_nil_iff.mpr h))
  rw [trimEnd, List.reverse_append, List.dropWhile_append,
    if_neg (mt List.isEmpty_iff.mp hne), List.reverse_append, List.reverse_reverse, trimEnd]

/-- Blanks behind a text do not matter for what it ends with. -/
theorem trimEnd_append_of_blank (cs : List Char) (hds : IsBlankText ds) :
    trimEnd (cs ++ ds) = trimEnd cs := by
  have hblank : ∀ c ∈ ds.reverse, isBlank c = true := fun c hc => hds c (List.mem_reverse.mp hc)
  rw [trimEnd, List.reverse_append, List.dropWhile_append_of_pos hblank, trimEnd]

theorem trimStart_append (hcs : ¬ IsBlankText cs) (ds : List Char) :
    trimStart (cs ++ ds) = trimStart cs ++ ds := by
  have hne : cs.dropWhile isBlank ≠ [] := mt trimStart_eq_nil_iff.mp hcs
  rw [trimStart, List.dropWhile_append, if_neg (mt List.isEmpty_iff.mp hne), trimStart]

theorem trimStart_append_of_blank (hcs : IsBlankText cs) (ds : List Char) :
    trimStart (cs ++ ds) = trimStart ds :=
  List.dropWhile_append_of_pos hcs

/-- What is left without the blanks at the front is blank only if all was. -/
theorem isBlankText_trimStart_iff : IsBlankText (trimStart cs) ↔ IsBlankText cs := by
  rw [← trimStart_eq_nil_iff, ← trimStart_eq_nil_iff, trimStart, trimStart,
    List.dropWhile_idempotent]

theorem trim_eq_nil_iff : trim cs = [] ↔ IsBlankText cs := by
  rw [trim, trimEnd_eq_nil_iff, isBlankText_trimStart_iff]

/-- Blanks behind a text are trimmed. -/
theorem trim_append_of_blank (cs : List Char) (hds : IsBlankText ds) :
    trim (cs ++ ds) = trim cs := by
  by_cases hcs : IsBlankText cs
  · have hall : IsBlankText (cs ++ ds) := fun c hc =>
      (List.mem_append.mp hc).elim (hcs c) (hds c)
    rw [trim_eq_nil_iff.mpr hall, trim_eq_nil_iff.mpr hcs]
  · rw [trim, trimStart_append hcs, trimEnd_append_of_blank _ hds, trim]

/-- Blanks before a text are trimmed. -/
theorem trim_append_of_blank_left (hcs : IsBlankText cs) (ds : List Char) :
    trim (cs ++ ds) = trim ds := by
  rw [trim, trimStart_append_of_blank hcs, trim]

/-- Of two texts that are not blank, the first is trimmed at its front and the second at its
end. -/
theorem trim_append (hcs : ¬ IsBlankText cs) (hds : ¬ IsBlankText ds) :
    trim (cs ++ ds) = trimStart cs ++ trimEnd ds := by
  rw [trim, trimStart_append hcs, trimEnd_append _ hds]

/-! ## Lines -/

theorem before?_eq_some_iff {ending front : List Char} :
    before? ending cs = some front ↔ cs = front ++ ending := by
  rw [before?, Option.map_eq_some_iff]
  constructor
  · rintro ⟨rest, hrest, rfl⟩
    rw [List.isPrefixOf?_eq_some_iff_append_eq] at hrest
    rw [← List.reverse_inj, ← hrest, List.reverse_append, List.reverse_reverse]
  · rintro rfl
    refine ⟨front.reverse, ?_, List.reverse_reverse front⟩
    rw [List.isPrefixOf?_eq_some_iff_append_eq, List.reverse_append]

/-- A carriage return at the end of a line is trimmed anyway. -/
theorem trim_chompReturn (line : List Char) : trim (chompReturn line) = trim line := by
  rw [chompReturn]
  cases hfront : before? ['\r'] line with
  | none => rfl
  | some front =>
    have hreturn : IsBlankText ['\r'] := by
      intro c hc
      rw [List.mem_singleton.mp hc]
      rfl
    rw [before?_eq_some_iff.mp hfront, trim_append_of_blank front hreturn, Option.getD_some]

@[simp] theorem fullLines_nil : fullLines [] = [] := rfl

/-- The lines that are not blank are the pieces between line feeds that are not blank. -/
theorem fullLines_eq (cs : List Char) :
    fullLines cs = ((splitOn '\n' cs).map trim).filter (! ·.isEmpty) := by
  rw [fullLines, lines]
  generalize splitOn '\n' cs = pieces
  fun_induction linesOfPieces pieces with
  | case1 => rfl
  | case2 last hlast =>
    obtain rfl := List.isEmpty_iff.mp hlast
    rfl
  | case3 last hlast => rfl
  | case4 piece rest hrest ih =>
    simp only [List.map_cons, List.filter_cons, trim_chompReturn, ih]

/-- Texts on different lines keep their lines. -/
theorem fullLines_append_cons (cs ds : List Char) :
    fullLines (cs ++ '\n' :: ds) = fullLines cs ++ fullLines ds := by
  simp only [fullLines_eq, splitOn_append_cons, List.map_append, List.filter_append]

/-- Only a blank text has no lines that are not blank. -/
theorem fullLines_eq_nil_iff : fullLines cs = [] ↔ IsBlankText cs := by
  have hfeed : isBlank '\n' = true := rfl
  simp only [fullLines_eq, List.filter_eq_nil_iff, List.forall_mem_map, Bool.not_eq_true',
    Bool.not_eq_false, List.isEmpty_iff, trim_eq_nil_iff]
  constructor
  · intro h c hc
    by_cases hbreak : c = '\n'
    · rw [hbreak, hfeed]
    · obtain ⟨piece, hpiece, hmem⟩ := exists_mem_splitOn_iff.mpr ⟨hc, hbreak⟩
      exact h piece hpiece c hmem
  · intro h piece hpiece c hc
    exact h c (exists_mem_splitOn_iff.mp ⟨piece, hpiece, hc⟩).1

/-! ## Lines that are trimmed already -/

/-- A line that is not empty and has no blank at either end. -/
structure IsPhrase (cs : List Char) : Prop where
  ne_nil : cs ≠ []
  oneLine : '\n' ∉ cs
  head : ∀ c ∈ cs.head?, isBlank c = false
  last : ∀ c ∈ cs.getLast?, isBlank c = false

theorem isPhrase_iff :
    IsPhrase cs ↔ cs ≠ [] ∧ '\n' ∉ cs ∧ cs.head?.all (! isBlank ·) = true ∧
      cs.getLast?.all (! isBlank ·) = true := by
  simp only [Option.all_eq_true, Bool.not_eq_true']
  exact ⟨fun h => ⟨h.ne_nil, h.oneLine, h.head, h.last⟩,
    fun h => ⟨h.1, h.2.1, h.2.2.1, h.2.2.2⟩⟩

instance (cs : List Char) : Decidable (IsPhrase cs) :=
  decidable_of_iff _ isPhrase_iff.symm

namespace IsPhrase

theorem trimStart_eq (h : IsPhrase cs) : trimStart cs = cs := by
  obtain ⟨c, rest, rfl⟩ := List.exists_cons_of_ne_nil h.ne_nil
  exact List.dropWhile_cons_of_neg (Bool.eq_false_iff.mp (h.head c rfl))

theorem trimEnd_eq (h : IsPhrase cs) : trimEnd cs = cs := by
  refine List.rdropWhile_eq_self_iff.mpr fun hne => ?_
  exact Bool.eq_false_iff.mp (h.last _ (List.getLast?_eq_some_getLast hne))

theorem trim_eq (h : IsPhrase cs) : trim cs = cs := by
  rw [trim, h.trimStart_eq, h.trimEnd_eq]

/-- It is the one line of itself. -/
theorem fullLines_eq (h : IsPhrase cs) : fullLines cs = [cs] := by
  rw [Text.fullLines_eq, splitOn_of_not_mem h.oneLine, List.map_singleton, h.trim_eq]
  exact List.filter_cons_of_pos (by simpa using h.ne_nil)

/-- Only the front and the end matter for where a phrase begins and ends. -/
theorem append (h : IsPhrase cs) (hmid : '\n' ∉ mid) (h' : IsPhrase ds) :
    IsPhrase (cs ++ (mid ++ ds)) where
  ne_nil := List.append_ne_nil_of_left_ne_nil h.ne_nil _
  oneLine := by simp [h.oneLine, hmid, h'.oneLine]
  head := by rw [List.head?_append_of_ne_nil _ h.ne_nil]; exact h.head
  last := by
    rw [← List.append_assoc, List.getLast?_append_of_ne_nil _ h'.ne_nil]
    exact h'.last

end IsPhrase

/-- What is left of one line after trimming is a phrase, or nothing. -/
theorem isPhrase_trim (hline : '\n' ∉ cs) (hne : trim cs ≠ []) : IsPhrase (trim cs) where
  ne_nil := hne
  oneLine hmem := by
    have hstart : '\n' ∈ trimStart cs := (List.rdropWhile_prefix _ _).mem hmem
    exact hline ((List.dropWhile_suffix _).mem hstart)
  head := by
    -- trimming the end keeps the first character, since something is left
    obtain ⟨rest, hrest⟩ : trim cs <+: trimStart cs := List.rdropWhile_prefix _ _
    intro c hc
    have hstart : c ∈ (trimStart cs).head? := by
      rw [← hrest, List.head?_append_of_ne_nil _ hne]
      exact hc
    have hnot := List.head?_dropWhile_not isBlank cs
    rw [← trimStart, Option.mem_def.mp hstart] at hnot
    exact hnot
  last c hc := by
    obtain ⟨hne', rfl⟩ := List.mem_getLast?_eq_getLast hc
    exact Bool.eq_false_iff.mpr (List.rdropWhile_last_not isBlank (trimStart cs) hne')

/-- The lines of a text are phrases. -/
theorem isPhrase_of_mem_fullLines {line : List Char} (h : line ∈ fullLines cs) :
    IsPhrase line := by
  rw [fullLines_eq, List.mem_filter, List.mem_map] at h
  obtain ⟨⟨piece, hpiece, rfl⟩, hne⟩ := h
  refine isPhrase_trim (fun hbreak => ?_) (by simpa using hne)
  exact (exists_mem_splitOn_iff.mp ⟨piece, hpiece, hbreak⟩).2 rfl

/-- Phrases on lines of their own are the lines of the text. -/
theorem fullLines_join {pieces : List (List Char)} (h : ∀ piece ∈ pieces, IsPhrase piece) :
    fullLines (join '\n' pieces) = pieces := by
  fun_induction join '\n' pieces with
  | case1 => rfl
  | case2 piece => exact (h piece List.mem_cons_self).fullLines_eq
  | case3 piece rest hrest ih =>
    obtain ⟨hpiece, hall⟩ := List.forall_mem_cons.mp h
    rw [fullLines_append_cons, hpiece.fullLines_eq, ih hall, List.singleton_append]

theorem fullLines_textOfLines {lines : List String} (h : ∀ line ∈ lines, IsPhrase line.toList) :
    fullLines (textOfLines lines).toList = lines.map String.toList := by
  induction lines with
  | nil => rfl
  | cons line rest ih =>
    obtain ⟨hline, hrest⟩ := List.forall_mem_cons.mp h
    have htext : (textOfLines (line :: rest)).toList =
        line.toList ++ '\n' :: (textOfLines rest).toList := by
      rw [textOfLines, List.foldr_cons, String.toList_append, String.toList_append,
        List.append_assoc]
      rfl
    rw [htext, fullLines_append_cons, hline.fullLines_eq, ih hrest, List.map_cons,
      List.singleton_append]

end Text
end ProtoBuild
