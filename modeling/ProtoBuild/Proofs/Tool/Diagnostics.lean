import ProtoBuild.Proofs.Program.Runs
import ProtoBuild.Proofs.Tool.Output
import ProtoBuild.Tool.Bazel
import ProtoBuild.Tool.Git

/-!
# What diagnostics do to data

Two tools are asked for data: the build tool for the labels of an expression, the version control
tool for the name of a branch.  Both answer on their standard output, and tell what they are doing
on their standard error.  What they are asked for is read from the two streams as one text.

So the data does not depend on the diagnostics as long as these are blank.  `reads_agree_iff` says
so of any two runs with the same standard output, and that it is no more than this: labels are the
lines of both streams, so that each line of diagnostics counts as a label, and the name of a branch
is the same only if the diagnostics end alike (`diagnostics_read_as_data`).
-/

namespace ProtoBuild

open Program Text ToolOutput Utf8

/-- An action that runs one tool comes to a value if this exits with zero after it has printed
something on each of its streams. -/
def Host.Reads {α : Type} (action : Host.Action α) (out err : List UInt8) (a : α) : Prop :=
  ∃ command, Reaches action [⟨.spawn command, .exited (some 0) out err⟩] (.done a)

theorem Host.reads_iff {α : Type} {command : ToolCommand} {next : ToolEnding → Host.Action α}
    {out err : List UInt8} {a b : α} (hnext : next (.exited (some 0) out err) = .done b) :
    Host.Reads (.ask (.spawn command) next) out err a ↔ a = b := by
  constructor
  · rintro ⟨command', h⟩
    cases h with
    | ask h =>
      rw [hnext] at h
      exact Program.done.inj (reaches_done_iff.mp h).2
  · rintro rfl
    exact ⟨command, .ask (hnext ▸ .refl _)⟩

/-! ## Labels -/

/-- A query finds the lines of both streams. -/
theorem Bazel.reads_query_iff {bazel : Bazel} {root expression : String} {out err : List UInt8}
    {found : Except ToolError (List String)} :
    Host.Reads (bazel.query root expression) out err found ↔
      found = .ok (linesOf out ++ linesOf err) := by
  rw [← lines_capture (some 0)]
  exact Host.reads_iff rfl

/-! ## The name of a branch -/

namespace Git

/-- Whether a text can be the name of a branch. -/
def IsName (name : List Char) : Prop :=
  name ≠ [] ∧ name ≠ "HEAD".toList

/-- What is made of a text that should be the name of a branch. -/
def named (root : String) (name : List Char) : Except BranchError String :=
  let branch := String.ofList name
  if branch.isEmpty || branch == "HEAD" then .error (.detached root) else .ok branch

theorem named_of_isName {root : String} {name : List Char} (h : IsName name) :
    named root name = .ok (String.ofList name) := by
  have hempty : (String.ofList name).isEmpty = false := by
    rw [String.isEmpty_eq_false_iff, Ne, String.ofList_eq_empty_iff]
    exact h.1
  have hhead : (String.ofList name == "HEAD") = false := by
    refine beq_eq_false_iff_ne.mpr fun heq => h.2 ?_
    rw [← heq, String.toList_ofList]
  rw [named]
  simp only [hempty, hhead, Bool.or_false, Bool.false_eq_true, if_false]

/-- The text that is taken for the name of a branch. -/
def nameIn (out err : List UInt8) : List Char :=
  trim (merge (Utf8.decodeLossy out) (Utf8.decodeLossy err))

theorem reads_currentBranch_iff {git : Git} {root : String} {out err : List UInt8}
    {answer : Except BranchError String} :
    Host.Reads (git.currentBranch root) out err answer ↔ answer = named root (nameIn out err) := by
  have hread : branchOf root (capture (some 0) out err) = named root (nameIn out err) := by
    rw [named, nameIn, ← String.toList_ofList (l := merge _ _)]
    rfl
  exact Host.reads_iff (congrArg Program.done hread)

variable {root : String} {name name' : List Char} {out err err' : List UInt8}

theorem named_inj (h : IsName name) (h' : IsName name') :
    named root name = named root name' ↔ name = name' := by
  rw [named_of_isName h, named_of_isName h', Except.ok.injEq, String.ofList_inj]

/-- Diagnostics that are not blank stand on a line of their own, and a name has no line break. -/
theorem isName_nameIn (h : IsName (trim (Utf8.decodeLossy out))) : IsName (nameIn out err) := by
  have hout : ¬ IsBlankText (Utf8.decodeLossy out) := mt trim_eq_nil_iff.mpr h.1
  by_cases herr : IsBlankText (Utf8.decodeLossy err)
  · rw [nameIn, trim_merge_of_blank _ herr]
    exact h
  · have hbreak : '\n' ∈ nameIn out err := mem_trim_merge hout herr
    refine ⟨List.ne_nil_of_mem hbreak, fun heq => ?_⟩
    rw [heq] at hbreak
    exact absurd hbreak (by decide)

end Git

/-! ## Both -/

/-- **What diagnostics do to data.**  Of two runs of a tool that exit with zero and print the same
on the standard output: a query finds the lines of both streams, so it finds the same exactly if
the diagnostics have the same lines.  Blank diagnostics do not matter for the name of a branch
either; but if the standard output is a name, it is the name that is found only if the diagnostics
are blank, and the same name is found only if they end alike. -/
theorem reads_agree_iff {bazel : Bazel} {git : Git} {root expression : String}
    {out err err' line said said' : List UInt8} {found found' : Except ToolError (List String)}
    {named named' : Except BranchError String}
    (hfound : Host.Reads (bazel.query root expression) out err found)
    (hfound' : Host.Reads (bazel.query root expression) out err' found')
    (hnamed : Host.Reads (git.currentBranch root) line said named)
    (hnamed' : Host.Reads (git.currentBranch root) line said' named') :
    (found = .ok (linesOf out ++ linesOf err) ∧
      (found = .ok (linesOf out) ↔ IsBlankText (Utf8.decodeLossy err)) ∧
      (found = found' ↔ linesOf err = linesOf err')) ∧
    (IsBlankText (Utf8.decodeLossy said) → IsBlankText (Utf8.decodeLossy said') →
      named = Git.named root (trim (Utf8.decodeLossy line)) ∧ named = named') ∧
    (Git.IsName (trim (Utf8.decodeLossy line)) →
      (named = .ok (String.ofList (trim (Utf8.decodeLossy line))) ↔
        IsBlankText (Utf8.decodeLossy said)) ∧
      (named = named' ↔
        trimEnd (Utf8.decodeLossy said) = trimEnd (Utf8.decodeLossy said'))) := by
  rw [Bazel.reads_query_iff] at hfound hfound'
  rw [Git.reads_currentBranch_iff] at hnamed hnamed'
  subst hfound hfound' hnamed hnamed'
  refine ⟨⟨rfl, ?_, ?_⟩, fun hsaid hsaid' => ?_, fun hname => ⟨?_, ?_⟩⟩
  · rw [Except.ok.injEq, List.append_right_eq_self, linesOf_eq_nil_iff]
  · rw [Except.ok.injEq, List.append_cancel_left_eq]
  · rw [Git.nameIn, Git.nameIn, trim_merge_of_blank _ hsaid, trim_merge_of_blank _ hsaid']
    exact ⟨rfl, rfl⟩
  · rw [← Git.named_of_isName hname, Git.named_inj (Git.isName_nameIn hname) hname, Git.nameIn,
      trim_merge_eq_trim_iff]
  · rw [Git.named_inj (Git.isName_nameIn hname) (Git.isName_nameIn hname), Git.nameIn, Git.nameIn,
      trim_merge_eq_iff (mt trim_eq_nil_iff.mpr hname.1)]

/-- The labels and the name of a branch that two tools print, each with and without a note. -/
theorem reads_differ_of_note :
    ∃ found found' named named',
      Host.Reads (({} : Bazel).query "/lake" "//...") (asciiBytes "//a") (asciiBytes "ok") found ∧
      Host.Reads (({} : Bazel).query "/lake" "//...") (asciiBytes "//a") [] found' ∧
      Host.Reads (({} : Git).currentBranch "/lake") (asciiBytes "main") (asciiBytes "ok") named ∧
      Host.Reads (({} : Git).currentBranch "/lake") (asciiBytes "main") [] named' ∧
      found = .ok ["//a", "ok"] ∧ found ≠ found' ∧ named ≠ named' := by
  have hfound : Host.Reads (({} : Bazel).query "/lake" "//...") (asciiBytes "//a")
      (asciiBytes "ok") _ := Bazel.reads_query_iff.mpr rfl
  have hfound' : Host.Reads (({} : Bazel).query "/lake" "//...") (asciiBytes "//a") [] _ :=
    Bazel.reads_query_iff.mpr rfl
  have hnamed : Host.Reads (({} : Git).currentBranch "/lake") (asciiBytes "main")
      (asciiBytes "ok") _ := Git.reads_currentBranch_iff.mpr rfl
  have hnamed' : Host.Reads (({} : Git).currentBranch "/lake") (asciiBytes "main") [] _ :=
    Git.reads_currentBranch_iff.mpr rfl
  obtain ⟨⟨hlabels, -, hsame⟩, -, hbranch⟩ := reads_agree_iff hfound hfound' hnamed hnamed'
  have hnote : linesOf (asciiBytes "ok") = ["ok"] := linesOf_asciiBytes (by decide)
  refine ⟨_, _, _, _, hfound, hfound', hnamed, hnamed', ?_, mt hsame.mp ?_, ?_⟩
  · rw [hnote, linesOf_asciiBytes (by decide)]
    rfl
  · rw [hnote, linesOf_nil]
    exact List.cons_ne_nil "ok" []
  · rw [decodeLossy_asciiBytes (by decide), decodeLossy_asciiBytes (by decide),
      decodeLossy_nil] at hbranch
    exact mt (hbranch ⟨by decide, by decide⟩).2.mp (by decide)

/-- Diagnostics are neither kept out of the labels nor out of the name of a branch. -/
theorem diagnostics_read_as_data :
    (¬ ∀ (bazel : Bazel) (root expression : String) (out err err' : List UInt8)
      (found found' : Except ToolError (List String)),
      Host.Reads (bazel.query root expression) out err found →
        Host.Reads (bazel.query root expression) out err' found' →
          found = found' ∧ found = .ok (linesOf out)) ∧
    ¬ ∀ (git : Git) (root : String) (out err err' : List UInt8)
      (named named' : Except BranchError String),
      Host.Reads (git.currentBranch root) out err named →
        Host.Reads (git.currentBranch root) out err' named' →
          named = named' ∧ named = Git.named root (trim (Utf8.decodeLossy out)) := by
  refine ⟨fun h => ?_, fun h => ?_⟩
  · obtain ⟨-, hlabels⟩ := h {} "/lake" "//..." (asciiBytes "//a") (asciiBytes "ok") [] _ _
      (Bazel.reads_query_iff.mpr rfl) (Bazel.reads_query_iff.mpr rfl)
    rw [linesOf_asciiBytes (by decide), linesOf_asciiBytes (by decide)] at hlabels
    exact absurd hlabels (by decide)
  · obtain ⟨-, hbranch⟩ := h {} "/lake" (asciiBytes "main") (asciiBytes "ok") [] _ _
      (Git.reads_currentBranch_iff.mpr rfl) (Git.reads_currentBranch_iff.mpr rfl)
    rw [Git.nameIn, decodeLossy_asciiBytes (by decide), decodeLossy_asciiBytes (by decide)]
      at hbranch
    exact absurd hbranch (by decide)

end ProtoBuild
