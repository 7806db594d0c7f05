import ProtoBuild.Host
import ProtoBuild.Proofs.Program.Runs
import ProtoBuild.Proofs.Text.Lines

/-!
# Two streams read as one text

The output of a tool is one text, in which the standard error follows the standard output on a line
of its own.  Read line by line nothing is lost by this and nothing is added: `lines_capture` says
that the lines are those of the one stream and then those of the other.

Often only the last lines are kept.  Read again they are the same lines, so that of those one can
keep fewer (`lines_tail`, `tail_tail`).

Read as a whole, as the name of a branch is, the text is that of the standard output only if the
standard error is blank (`trim_merge_eq_trim_iff`).
-/

namespace ProtoBuild

namespace Utf8

theorem decodeLossy_nil : decodeLossy [] = [] := by
  rw [decodeLossy]

theorem scan_of_lt {b : UInt8} {bs : List UInt8} (h : b < 0x80) :
    scan b bs = (some (Char.ofNat b.toNat), 0) :=
  if_pos h

/-- The bytes of ASCII characters. -/
def asciiBytes (text : String) : List UInt8 :=
  text.toList.map fun c => UInt8.ofNat c.toNat

/-- ASCII characters are read one by one. -/
theorem decodeLossy_asciiBytes {text : String}
    (h : text.toList.all (fun c => c.toNat < 0x80) = true) :
    decodeLossy (asciiBytes text) = text.toList := by
  rw [asciiBytes]
  generalize text.toList = cs at h ⊢
  induction cs with
  | nil => exact decodeLossy_nil
  | cons c cs ih =>
    rw [List.all_cons, Bool.and_eq_true, decide_eq_true_iff] at h
    have hbyte : (UInt8.ofNat c.toNat).toNat = c.toNat :=
      UInt8.toNat_ofNat_of_lt' (Nat.lt_trans h.1 (by decide))
    have hlow : UInt8.ofNat c.toNat < 0x80 := by
      rw [UInt8.lt_iff_toNat_lt, hbyte]
      exact h.1
    rw [List.map_cons, decodeLossy, scan_of_lt hlow, hbyte, Char.ofNat_toNat]
    exact congrArg (c :: ·) (ih h.2)

end Utf8

/-! ## Running a tool -/

namespace Host

variable {command : ToolCommand} {description : String} {result : Except ToolError ToolOutput}

/-- A tool is run by one request, and its ending decides the result. -/
theorem reaches_runTool_iff {run : List (Exchange interface)} :
    Program.Reaches (runTool command description) run (.done result) ↔
      ∃ ending : ToolEnding, run = [⟨.spawn command, ending⟩] ∧
        outcome description command.timeout ending = result := by
  have hrun : runTool command description =
      ask (.spawn command) >>= fun ending =>
        .done (outcome description command.timeout ending) := rfl
  rw [hrun, Program.reaches_bind_done_iff]
  exact exists_congr fun ending => and_congr_left fun _ => Program.reaches_request_iff

/-- Of a tool that was not stopped the output is captured, whatever its exit code. -/
theorem reaches_runTool_exited_iff {code : Option Int} {out err : List UInt8} :
    Program.Reaches (runTool command description)
        [⟨.spawn command, ToolEnding.exited code out err⟩] (.done result) ↔
      result = .ok (.capture code out err) := by
  rw [reaches_runTool_iff]
  constructor
  · rintro ⟨ending, hrun, rfl⟩
    cases hrun
    rfl
  · rintro rfl
    exact ⟨_, rfl, rfl⟩

end Host

namespace ToolOutput

open Text

variable {out err err' : List Char}

/-! ## Line by line -/

/-- The lines that are not blank of what was printed on a stream. -/
def linesOf (bytes : List UInt8) : List String :=
  (fullLines (Utf8.decodeLossy bytes)).map String.ofList

/-- No line of the one stream is glued to a line of the other. -/
theorem fullLines_merge (out err : List Char) :
    fullLines (merge out err) = fullLines out ++ fullLines err := by
  rw [merge]
  split
  · rename_i herr
    rw [List.isEmpty_iff.mp herr, fullLines_nil, List.append_nil]
  · split
    · rename_i hout
      rcases Bool.or_eq_true_iff.mp hout with hempty | hlast
      · rw [List.isEmpty_iff.mp hempty, List.nil_append, fullLines_nil, List.nil_append]
      · obtain ⟨front, rfl⟩ := List.getLast?_eq_some_iff.mp (beq_iff_eq.mp hlast)
        rw [List.append_assoc, List.singleton_append, fullLines_append_cons,
          fullLines_append_cons front [], fullLines_nil, List.append_nil]
    · exact fullLines_append_cons out err

theorem lines_capture (code : Option Int) (out err : List UInt8) :
    (capture code out err).lines = linesOf out ++ linesOf err := by
  rw [lines, capture, String.toList_ofList, fullLines_merge, List.map_append, linesOf, linesOf]

theorem linesOf_eq_nil_iff {bytes : List UInt8} :
    linesOf bytes = [] ↔ IsBlankText (Utf8.decodeLossy bytes) := by
  rw [linesOf, List.map_eq_nil_iff, fullLines_eq_nil_iff]

theorem linesOf_nil : linesOf [] = [] := by
  rw [linesOf, Utf8.decodeLossy_nil]
  rfl

theorem linesOf_asciiBytes {text : String}
    (h : text.toList.all (fun c => c.toNat < 0x80) = true) :
    linesOf (Utf8.asciiBytes text) = (fullLines text.toList).map String.ofList := by
  rw [linesOf, Utf8.decodeLossy_asciiBytes h]

/-! ## The last lines -/

variable {o : ToolOutput} {m n : Nat}

theorem toList_tail (o : ToolOutput) (n : Nat) :
    (o.tail n).toList = join '\n' ((fullLines o.text.toList).rtake n) := by
  rw [tail, joinStrings, String.toList_ofList, lines, List.length_map, ← List.map_drop,
    List.map_map, List.rtake]
  simp

/-- Read again, the last lines of an output are those lines. -/
theorem lines_tail (o : ToolOutput) (code : Int) (n : Nat) :
    (ToolOutput.mk code (o.tail n)).lines = o.lines.rtake n := by
  have hphrases : ∀ line ∈ (fullLines o.text.toList).rtake n, IsPhrase line := fun line hline =>
    isPhrase_of_mem_fullLines (List.mem_of_mem_drop hline)
  rw [lines, toList_tail, fullLines_join hphrases, lines, List.rtake, List.rtake, List.map_drop,
    List.length_map]

/-- Of some last lines, fewer last lines are those of the whole output. -/
theorem tail_tail (o : ToolOutput) (code : Int) (h : m ≤ n) :
    (ToolOutput.mk code (o.tail n)).tail m = o.tail m := by
  rw [tail, lines_tail, List.rtake, List.drop_drop, List.length_drop, tail]
  congr 2
  omega

/-- Fewer last lines are the end of more of them. -/
theorem tail_suffix_tail (o : ToolOutput) (h : m ≤ n) :
    (o.tail m).toList <:+ (o.tail n).toList := by
  rw [toList_tail, toList_tail]
  exact join_suffix_join (List.drop_suffix_drop_left _ (by omega))

/-! ## As a whole -/

/-- What stands between the two streams, if anything follows. -/
def gap (out : List Char) : List Char :=
  if out.isEmpty || out.getLast? == some '\n' then [] else ['\n']

theorem merge_of_ne_nil (out : List Char) (herr : err ≠ []) :
    merge out err = out ++ (gap out ++ err) := by
  rw [merge, if_neg (mt List.isEmpty_iff.mp herr), gap]
  split
  · rfl
  · rfl

theorem isBlankText_gap (out : List Char) : IsBlankText (gap out) := by
  intro c hc
  rw [gap] at hc
  split at hc
  · exact nomatch hc
  · rw [List.mem_singleton.mp hc]
    rfl

theorem merge_nil (out : List Char) : merge out [] = out := rfl

theorem trim_merge_of_blank (out : List Char) (herr : IsBlankText err) :
    trim (merge out err) = trim out := by
  by_cases hnil : err = []
  · rw [hnil, merge_nil]
  · have htail : IsBlankText (gap out ++ err) := fun c hc =>
      (List.mem_append.mp hc).elim (isBlankText_gap out c) (herr c)
    rw [merge_of_ne_nil out hnil, trim_append_of_blank out htail]

theorem trim_merge_of_blank_left (hout : IsBlankText out) (err : List Char) :
    trim (merge out err) = trim err := by
  by_cases hnil : err = []
  · rw [hnil, merge_nil, trim_eq_nil_iff.mpr hout, trim_nil]
  · rw [merge_of_ne_nil out hnil, trim_append_of_blank_left hout,
      trim_append_of_blank_left (isBlankText_gap out)]

theorem trim_merge (hout : ¬ IsBlankText out) (herr : ¬ IsBlankText err) :
    trim (merge out err) = trimStart out ++ (gap out ++ trimEnd err) := by
  have hne : err ≠ [] := by
    rintro rfl
    exact herr isBlankText_nil
  have htail : ¬ IsBlankText (gap out ++ err) := fun h =>
    herr fun c hc => h c (List.mem_append_right (gap out) hc)
  rw [merge_of_ne_nil out hne, trim_append hout htail, trimEnd_append (gap out) herr]

/-- Texts on two streams stand on different lines. -/
theorem mem_trim_merge (hout : ¬ IsBlankText out) (herr : ¬ IsBlankText err) :
    '\n' ∈ trim (merge out err) := by
  rw [trim_merge hout herr, gap]
  split
  · rename_i hbreak
    -- the line break that ends the standard output is not trimmed, since more follows
    obtain ⟨front, rfl⟩ : ∃ front, out = front ++ ['\n'] := by
      rcases Bool.or_eq_true_iff.mp hbreak with hempty | hlast
      · exact absurd isBlankText_nil (List.isEmpty_iff.mp hempty ▸ hout)
      · exact List.getLast?_eq_some_iff.mp (beq_iff_eq.mp hlast)
    have hfront : ¬ IsBlankText front := fun h => hout fun c hc =>
      (List.mem_append.mp hc).elim (h c) fun hc => by rw [List.mem_singleton.mp hc]; rfl
    rw [trimStart_append hfront]
    exact List.mem_append_left _ (List.mem_append_right _ List.mem_cons_self)
  · exact List.mem_append_right _ List.mem_cons_self

/-- More than blanks on the standard error is more than the standard output. -/
theorem trim_merge_ne_trim (hout : ¬ IsBlankText out) (herr : ¬ IsBlankText err) :
    trim (merge out err) ≠ trim out := by
  intro heq
  have hlength := congrArg List.length heq
  have hle : (trim out).length ≤ (trimStart out).length := (List.rdropWhile_prefix _ _).length_le
  have hpos : 0 < (trimEnd err).length :=
    List.length_pos_iff.mpr (mt trimEnd_eq_nil_iff.mp herr)
  rw [trim_merge hout herr, List.length_append, List.length_append] at hlength
  omega

/-- The text as a whole is that of the standard output exactly if the standard error is blank. -/
theorem trim_merge_eq_trim_iff : trim (merge out err) = trim out ↔ IsBlankText err := by
  refine ⟨fun heq => ?_, trim_merge_of_blank out⟩
  by_cases hout : IsBlankText out
  · rw [trim_merge_of_blank_left hout, trim_eq_nil_iff.mpr hout] at heq
    exact trim_eq_nil_iff.mp heq
  · by_contra herr
    exact trim_merge_ne_trim hout herr heq

/-- Unless the standard output is blank, what the standard error ends with tells two texts with
one standard output apart. -/
theorem trim_merge_eq_iff (hout : ¬ IsBlankText out) :
    trim (merge out err) = trim (merge out err') ↔ trimEnd err = trimEnd err' := by
  by_cases herr : IsBlankText err
  · rw [trim_merge_of_blank out herr, trimEnd_eq_nil_iff.mpr herr, eq_comm,
      trim_merge_eq_trim_iff, eq_comm, trimEnd_eq_nil_iff]
  · by_cases herr' : IsBlankText err'
    · rw [trim_merge_of_blank out herr', trimEnd_eq_nil_iff.mpr herr', trim_merge_eq_trim_iff,
        trimEnd_eq_nil_iff]
    · rw [trim_merge hout herr, trim_merge hout herr', List.append_cancel_left_eq,
        List.append_cancel_left_eq]

end ToolOutput
end ProtoBuild
