import Mathlib.Data.List.Forall2
import ProtoBuild.Finding.Location
import ProtoBuild.Proofs.Text.Lines
import ProtoBuild.Proofs.Text.Numerals

/-!
# What is read from the lines of a tool

A line that says where a problem is has colons at fixed places, but it may have more of them: in
the message, and also in the file.  So there may be several ways to cut it, and the reader takes
the one with the shortest file.  `Location.Splits` says what a way to cut a line is, without the
reader, and `finds_ofLine?` that the reader finds the one with the shortest file, and nothing only
if there is none at all.

What the findings of an output are is said line by line (`Finding.ReadAs`).  A file without a colon
leaves no choice, so remarks on places in such files are got back from the lines that write them
(`read_from_lines`).

## Why the reader of tails is not generalised

Behind the file there is no choice left: a run of digits ends where its colon is.  So the two
positions and the message are determined by the text behind the file (`cuts_iff`), and all that
remains is the search for the colon that ends the file.
-/

namespace ProtoBuild

open Text

namespace Location

variable {l l' : Location} {cs ds rest line column message : List Char} {c : Char}

/-- A run of decimal digits. -/
def IsDigits (ds : List Char) : Prop :=
  ds ≠ [] ∧ ∀ d ∈ ds, isDecimalDigit d = true

/-- A text is a file, perhaps an empty one, two runs of digits and a message that is not empty, with
colons between them. -/
structure Cuts (l : Location) (cs : List Char) : Prop where
  eq : cs = l.file ++ ':' :: (l.line ++ ':' :: (l.column ++ ':' :: l.message))
  line : IsDigits l.line
  column : IsDigits l.column
  message_ne_nil : l.message ≠ []

/-- A text is cut into the parts of a location, and its file is not empty. -/
structure Splits (l : Location) (cs : List Char) : Prop extends Cuts l cs where
  file_ne_nil : l.file ≠ []

/-! ## Runs of digits -/

theorem digitsColon?_eq_some_iff :
    digitsColon? cs = some (ds, rest) ↔ cs = ds ++ ':' :: rest ∧ IsDigits ds := by
  have hcolon : ¬ isDecimalDigit ':' = true := by decide
  constructor
  · intro h
    rw [digitsColon?] at h
    split at h
    · exact nomatch h
    · rename_i hdrop hne
      obtain ⟨rfl, rfl⟩ := Prod.mk.inj (Option.some.inj h)
      refine ⟨?_, hne, fun d hd => List.mem_takeWhile_imp hd⟩
      rw [← hdrop, List.takeWhile_append_dropWhile]
    · exact nomatch h
  · rintro ⟨rfl, hne, hdigits⟩
    rw [digitsColon?, List.takeWhile_append_of_pos hdigits, List.dropWhile_append_of_pos hdigits,
      List.takeWhile_cons_of_neg hcolon, List.dropWhile_cons_of_neg hcolon, List.append_nil]
    obtain ⟨d, ds, rfl⟩ := List.exists_cons_of_ne_nil hne
    rfl

theorem tail?_eq_some_iff :
    tail? cs = some (line, column, message) ↔
      cs = line ++ ':' :: (column ++ ':' :: message) ∧ IsDigits line ∧ IsDigits column ∧
        message ≠ [] := by
  simp only [tail?, Option.bind_eq_bind, Option.bind_eq_some_iff, Prod.exists,
    digitsColon?_eq_some_iff, Option.ite_none_left_eq_some, List.isEmpty_iff, Option.some.injEq,
    Prod.mk.injEq]
  constructor
  · rintro ⟨ds, rest, ⟨rfl, hline⟩, ds', message', ⟨rfl, hcolumn⟩, hne, rfl, rfl, rfl⟩
    exact ⟨rfl, hline, hcolumn, hne⟩
  · rintro ⟨rfl, hline, hcolumn, hne⟩
    exact ⟨_, _, ⟨rfl, hline⟩, _, _, ⟨rfl, hcolumn⟩, hne, rfl, rfl, rfl⟩

/-! ## Ways to cut a text -/

theorem cuts_iff :
    l.Cuts cs ↔
      ∃ rest, cs = l.file ++ ':' :: rest ∧ tail? rest = some (l.line, l.column, l.message) := by
  simp only [tail?_eq_some_iff]
  constructor
  · rintro ⟨rfl, hline, hcolumn, hne⟩
    exact ⟨_, rfl, rfl, hline, hcolumn, hne⟩
  · rintro ⟨rest, rfl, rfl, hline, hcolumn, hne⟩
    exact ⟨rfl, hline, hcolumn, hne⟩

/-- The length of the file determines all. -/
theorem Cuts.eq_of_length_eq (h : l.Cuts cs) (h' : l'.Cuts cs)
    (hlength : l.file.length = l'.file.length) : l = l' := by
  obtain ⟨rest, heq, htail⟩ := cuts_iff.mp h
  obtain ⟨rest', heq', htail'⟩ := cuts_iff.mp h'
  obtain ⟨hfile, hrest⟩ := List.append_inj (heq.symm.trans heq') hlength
  rw [(List.cons.inj hrest).2, htail'] at htail
  obtain ⟨hline, hcolumn, hmessage⟩ : l'.line = l.line ∧ l'.column = l.column ∧
      l'.message = l.message := by simpa using htail
  cases l
  cases l'
  simp_all only

/-- A location whose file has one more character at its front. -/
def addFront (c : Char) (l : Location) : Location :=
  { l with file := c :: l.file }

theorem cuts_cons_iff :
    l.Cuts (c :: cs) ↔
      (l.file = [] ∧ c = ':' ∧ tail? cs = some (l.line, l.column, l.message)) ∨
        ∃ l' : Location, l'.Cuts cs ∧ l = l'.addFront c := by
  rw [cuts_iff]
  constructor
  · rintro ⟨rest, heq, htail⟩
    cases hfile : l.file with
    | nil =>
      rw [hfile] at heq
      obtain ⟨rfl, rfl⟩ := List.cons.inj heq
      exact Or.inl ⟨rfl, rfl, htail⟩
    | cons d file =>
      rw [hfile] at heq
      obtain ⟨rfl, hcs⟩ := List.cons.inj heq
      refine Or.inr ⟨{ l with file := file }, cuts_iff.mpr ⟨rest, hcs, htail⟩, ?_⟩
      rw [addFront, ← hfile]
  · rintro (⟨hfile, rfl, htail⟩ | ⟨l', h', rfl⟩)
    · exact ⟨cs, by rw [hfile, List.nil_append], htail⟩
    · obtain ⟨rest, rfl, htail⟩ := cuts_iff.mp h'
      exact ⟨rest, rfl, htail⟩

theorem splits_cons_iff :
    l.Splits (c :: cs) ↔ ∃ l' : Location, l'.Cuts cs ∧ l = l'.addFront c := by
  constructor
  · rintro ⟨hcuts, hne⟩
    exact (cuts_cons_iff.mp hcuts).resolve_left fun h => hne h.1
  · rintro ⟨l', h', rfl⟩
    exact ⟨cuts_cons_iff.mpr (Or.inr ⟨l', h', rfl⟩), List.cons_ne_nil c l'.file⟩

/-! ## The shortest file -/

/-- Of the locations with a property one with the shortest file is found, or none if there is
none. -/
inductive Finds (P : Location → Prop) : Option Location → Prop
  | some {l : Location} (h : P l) (hmin : ∀ l', P l' → l.file.length ≤ l'.file.length) :
      Finds P (some l)
  | none (h : ∀ l, ¬ P l) : Finds P none

/-- What is found among some locations is found among those with one more character. -/
theorem Finds.addFront {P P' : Location → Prop} {found : Option Location} (h : Finds P found)
    (hP : ∀ l, P' l ↔ ∃ l', P l' ∧ l = l'.addFront c) : Finds P' (found.map (addFront c)) := by
  cases h with
  | some h hmin =>
    refine .some ((hP _).mpr ⟨_, h, rfl⟩) fun l' h' => ?_
    obtain ⟨l'', h'', rfl⟩ := (hP l').mp h'
    exact Nat.succ_le_succ (hmin l'' h'')
  | none h =>
    refine .none fun l hl => ?_
    obtain ⟨l', h', -⟩ := (hP l).mp hl
    exact h l' h'

/-- The reader tries the colons of a text one after another. -/
theorem finds_read? (cs : List Char) : Finds (·.Cuts cs) (read? cs) := by
  induction cs with
  | nil => exact .none fun l h => absurd h.eq.symm (List.append_ne_nil_of_right_ne_nil _ nofun)
  | cons c cs ih =>
    rw [read?]
    split
    · rename_i line column message hhere
      obtain ⟨hc, htail⟩ := Option.ite_none_right_eq_some.mp hhere
      exact .some (cuts_cons_iff.mpr (Or.inl ⟨rfl, beq_iff_eq.mp hc, htail⟩))
        fun _ _ => Nat.zero_le _
    · rename_i hnone
      refine ih.addFront fun l => cuts_cons_iff.trans (or_iff_right ?_)
      rintro ⟨-, rfl, htail⟩
      rw [beq_self_eq_true, if_pos rfl, htail] at hnone
      exact nomatch hnone

/-- **The shortest file is found**, and nothing only if a line cannot be cut. -/
theorem finds_ofLine? (line : List Char) : Finds (·.Splits line) (ofLine? line) := by
  cases line with
  | nil => exact .none fun l h => absurd h.eq.symm (List.append_ne_nil_of_right_ne_nil _ nofun)
  | cons c cs => exact (finds_read? cs).addFront fun l => splits_cons_iff

/-- A file without a colon is the shortest. -/
theorem Cuts.length_le (h : l.Cuts cs) (hfile : ':' ∉ l.file) (h' : l'.Cuts cs) :
    l.file.length ≤ l'.file.length := by
  obtain ⟨rest, heq, -⟩ := cuts_iff.mp h
  obtain ⟨rest', heq', -⟩ := cuts_iff.mp h'
  rcases List.append_eq_append_iff.mp (heq.symm.trans heq') with
    ⟨more, hmore, -⟩ | ⟨more, hmore, hrest⟩
  · rw [hmore, List.length_append]
    exact Nat.le_add_right _ _
  · -- what the first file has more would begin with the colon that ends the second
    cases more with
    | nil => rw [hmore, List.append_nil]
    | cons d more =>
      obtain ⟨rfl, -⟩ := List.cons.inj hrest
      exact absurd (hmore ▸ List.mem_append_right _ List.mem_cons_self) hfile

theorem ofLine?_of_splits (h : l.Splits line) (hfile : ':' ∉ l.file) : ofLine? line = some l := by
  have hfinds := finds_ofLine? line
  generalize ofLine? line = found at hfinds ⊢
  cases hfinds with
  | some h' hmin =>
    have hlength := Nat.le_antisymm (hmin l h) (h.length_le hfile h'.toCuts)
    rw [h'.eq_of_length_eq h.toCuts hlength]
  | none hnone => exact absurd h (hnone l)

end Location

/-! ## Findings of an output -/

/-- The number that digits write, or zero if they are no ASCII digits or write too large a
number for thirty-two bits. -/
def positionOf (digits : List Char) : Nat :=
  if digits.all Char.isDigit = true ∧ Nat.ofDigitChars 10 digits 0 < UInt32.size then
    Nat.ofDigitChars 10 digits 0
  else 0

theorem toNat_getD_word32? {ds : List Char} (h : Location.IsDigits ds) :
    ((word32? ds).getD 0).toNat = positionOf ds := by
  rw [word32?, boundedNatural?_of_digits h.1 h.2, positionOf]
  split
  · rename_i hsmall
    rw [Option.map_some, Option.getD_some, UInt32.toNat_ofNat', Nat.mod_eq_of_lt hsmall.2]
  · rfl

namespace Finding

variable {check : Check} {severity : Severity}

/-- The finding that a line stands for: one with a place, if the line can be cut so, and then with
the shortest file; else the whole line is a message. -/
inductive ReadAs (check : Check) (severity : Severity) (line : List Char) : Finding → Prop
  | located {l : Location} {row column : UInt32} (h : l.Splits line)
      (hmin : ∀ l' : Location, l'.Splits line → l.file.length ≤ l'.file.length)
      (hrow : row.toNat = positionOf l.line) (hcolumn : column.toNat = positionOf l.column) :
      ReadAs check severity line
        { check := check
          severity := severity
          message := String.ofList (trim l.message)
          file := some (String.ofList l.file)
          line := some row
          column := some column }
  | plain (h : ∀ l : Location, ¬ l.Splits line) :
      ReadAs check severity line
        { check := check, severity := severity, message := String.ofList line }

theorem readAs_ofLine (check : Check) (severity : Severity) (line : List Char) :
    ReadAs check severity line (ofLine check severity line) := by
  have hfinds := Location.finds_ofLine? line
  rw [ofLine]
  generalize Location.ofLine? line = found at hfinds ⊢
  cases hfinds with
  | some h hmin =>
    exact .located h hmin (toNat_getD_word32? h.line) (toNat_getD_word32? h.column)
  | none h => exact .plain h

/-- Each line that is not blank gives one finding, in the order of the lines. -/
theorem forall₂_readAs_ofOutput (check : Check) (severity : Severity) (output : String) :
    List.Forall₂ (ReadAs check severity)
      (((output.toList.splitOn '\n').map trim).filter (· ≠ [])) (ofOutput check severity output) := by
  have hlines : ((output.toList.splitOn '\n').map trim).filter (· ≠ []) =
      fullLines output.toList := by
    rw [fullLines_eq, splitOn_eq]
    exact List.filter_congr fun line _ => by cases line <;> rfl
  rw [hlines, ofOutput, List.forall₂_map_right_iff, List.forall₂_same]
  exact fun line _ => readAs_ofLine check severity line

end Finding

/-- A remark on a place in a file. -/
structure Remark where
  file : String
  line : UInt32
  column : UInt32
  message : String

namespace Remark

variable {r : Remark}

/-- A remark in one line. -/
def text (r : Remark) : String :=
  r.file ++ ":" ++ toString r.line.toNat ++ ":" ++ toString r.column.toNat ++ ":" ++ r.message

/-- The finding of a remark. -/
def finding (check : Check) (severity : Severity) (r : Remark) : Finding :=
  { check := check
    severity := severity
    message := r.message
    file := some r.file
    line := some r.line
    column := some r.column }

/-- A remark that can be written in one line: file and message are not empty and have neither line
feeds nor blanks around them, and the file has no colon. -/
structure Writable (r : Remark) : Prop where
  file : IsPhrase r.file.toList
  colon : ':' ∉ r.file.toList
  message : IsPhrase r.message.toList

/-- The parts of a remark, with its positions in digits. -/
def location (r : Remark) : Location :=
  ⟨r.file.toList, Nat.toDigits 10 r.line.toNat, Nat.toDigits 10 r.column.toNat, r.message.toList⟩

theorem toList_text (r : Remark) :
    r.text.toList = r.file.toList ++ ':' :: (Nat.toDigits 10 r.line.toNat ++
      ':' :: (Nat.toDigits 10 r.column.toNat ++ ':' :: r.message.toList)) := by
  simp [text]

theorem isDigits_toDigits (n : Nat) : Location.IsDigits (Nat.toDigits 10 n) :=
  ⟨Nat.toDigits_ne_nil, fun _ hd => isAsciiDigit_isDecimalDigit (isAsciiDigit_of_mem_toDigits hd)⟩

theorem getD_word32?_toDigits (n : UInt32) : (word32? (Nat.toDigits 10 n.toNat)).getD 0 = n := by
  rw [← UInt32.toNat_inj, toNat_getD_word32? (isDigits_toDigits n.toNat), positionOf,
    Nat.ofDigitChars_ten_toDigits]
  refine if_pos ⟨List.all_eq_true.mpr fun d hd => ?_, n.toNat_lt⟩
  exact Nat.isDigit_of_mem_toDigits (by decide) (by decide) hd

theorem Writable.splits (h : r.Writable) : r.location.Splits r.text.toList where
  eq := r.toList_text
  line := isDigits_toDigits _
  column := isDigits_toDigits _
  message_ne_nil := h.message.ne_nil
  file_ne_nil := h.file.ne_nil

theorem Writable.isPhrase (h : r.Writable) : IsPhrase r.text.toList := by
  have hdigits : ∀ n : Nat, '\n' ∉ Nat.toDigits 10 n := fun n hfeed =>
    absurd (isAsciiDigit_of_mem_toDigits hfeed) (by decide)
  have hmid : '\n' ∉ ':' :: (Nat.toDigits 10 r.line.toNat ++
      ':' :: (Nat.toDigits 10 r.column.toNat ++ [':'])) := by
    simp [hdigits]
  have htext : r.text.toList = r.file.toList ++ (':' :: (Nat.toDigits 10 r.line.toNat ++
      ':' :: (Nat.toDigits 10 r.column.toNat ++ [':'])) ++ r.message.toList) := by
    simp [toList_text]
  rw [htext]
  exact h.file.append hmid h.message

/-- A remark is got back from its line. -/
theorem Writable.ofLine_eq (h : r.Writable) (check : Check) (severity : Severity) :
    Finding.ofLine check severity r.text.toList = r.finding check severity := by
  rw [Finding.ofLine, Location.ofLine?_of_splits h.splits h.colon]
  simp only [location, getD_word32?_toDigits, h.message.trim_eq, String.ofList_toList, finding]

/-- Remarks are got back from a text whose lines they are. -/
theorem ofOutput_eq {remarks : List Remark} (h : ∀ r ∈ remarks, r.Writable) {output : String}
    (hlines : fullLines output.toList = (remarks.map text).map String.toList) (check : Check)
    (severity : Severity) :
    Finding.ofOutput check severity output = remarks.map (finding check severity) := by
  rw [Finding.ofOutput, hlines, List.map_map, List.map_map]
  exact List.map_congr_left fun r hr => (h r hr).ofLine_eq check severity

end Remark

/-- **What is read from the lines of a tool.**  Each line that is not blank gives one finding, in
order: with the place that the line says if it says one, and then the one with the shortest file,
and else with the whole line for a message.  So remarks that are written line by line are got back,
whether or not a line feed ends the last line. -/
theorem read_from_lines (check : Check) (severity : Severity) (output : String) :
    List.Forall₂ (Finding.ReadAs check severity)
        (((output.toList.splitOn '\n').map trim).filter (· ≠ []))
        (Finding.ofOutput check severity output) ∧
      ∀ remarks : List Remark, (∀ r ∈ remarks, r.Writable) →
        Finding.ofOutput check severity (textOfLines (remarks.map Remark.text)) =
            remarks.map (Remark.finding check severity) ∧
          Finding.ofOutput check severity (joinStrings '\n' (remarks.map Remark.text)) =
            remarks.map (Remark.finding check severity) := by
  refine ⟨Finding.forall₂_readAs_ofOutput check severity output, fun remarks h => ?_⟩
  have hphrases : ∀ line ∈ remarks.map Remark.text, IsPhrase line.toList :=
    List.forall_mem_map.mpr fun r hr => (h r hr).isPhrase
  refine ⟨Remark.ofOutput_eq h (fullLines_textOfLines hphrases) check severity,
    Remark.ofOutput_eq h ?_ check severity⟩
  rw [joinStrings, String.toList_ofList, fullLines_join (List.forall_mem_map.mpr hphrases)]

/-- Two remarks; one message looks like a place itself. -/
def twoRemarks : List Remark :=
  [⟨"acme/user.proto", 3, 0, "12:7:see a:1:2:b"⟩, ⟨"b.proto", 4294967295, 1, "end"⟩]

/-- A message that looks like a place stays a message, and the largest position is not lost. -/
theorem read_from_two_lines :
    (∀ r ∈ twoRemarks, r.Writable) ∧
      textOfLines (twoRemarks.map Remark.text) =
        "acme/user.proto:3:0:12:7:see a:1:2:b\nb.proto:4294967295:1:end\n" ∧
      Finding.ofOutput .lint .warning
          "acme/user.proto:3:0:12:7:see a:1:2:b\nb.proto:4294967295:1:end\n" =
        twoRemarks.map (Remark.finding .lint .warning) := by
  have hwritable : ∀ r ∈ twoRemarks, r.Writable := by
    intro r hr
    simp only [twoRemarks, List.mem_cons, List.not_mem_nil, or_false] at hr
    rcases hr with rfl | rfl
    · exact ⟨by decide, by decide, by decide⟩
    · exact ⟨by decide, by decide, by decide⟩
  have htext : textOfLines (twoRemarks.map Remark.text) =
      "acme/user.proto:3:0:12:7:see a:1:2:b\nb.proto:4294967295:1:end\n" := by decide
  have hread := ((read_from_lines .lint .warning "").2 twoRemarks hwritable).1
  rw [htext] at hread
  exact ⟨hwritable, htext, hread⟩

end ProtoBuild
