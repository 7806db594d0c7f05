import ProtoBuild.Proofs.Pipeline.Coherence
import ProtoBuild.Proofs.Tool.Output
import ProtoBuild.Tool.Buf
import ProtoBuild.Tool.Git

/-!
# What the checker's word is worth

A check of the definitions runs a tool and makes findings of the lines that it printed.  So the
verdict on a lake rests on two things: the exit code, which says whether there is anything to find,
and the output, which says what.  A tool that fails without a word (because it was killed, say)
leaves no finding.

`reported_and_stops` says what this comes to.  A report is unsuccessful exactly if one of the
strict checks, which compile and compare, has failed and has printed a line that is not blank; and
if one has, then the build of the lake ends with its checks.  A strict check that fails in silence
is passed over (`silent_failure_passes`).
-/

namespace ProtoBuild

open Program

namespace Finding

theorem severity_ofLine (check : Check) (severity : Severity) (line : List Char) :
    (ofLine check severity line).severity = severity := by
  unfold ofLine
  split <;> rfl

theorem ofOutput_eq_nil_iff {check : Check} {severity : Severity} {output : ToolOutput} :
    ofOutput check severity output.text = [] ↔ output.lines = [] := by
  rw [ofOutput, ToolOutput.lines, List.map_eq_nil_iff, List.map_eq_nil_iff]

/-- Errors are found in an output exactly if it has a line to make an error of. -/
theorem exists_error_ofOutput_iff {check : Check} {severity : Severity} {output : ToolOutput} :
    (∃ f ∈ ofOutput check severity output.text, f.isError = true) ↔
      severity = .error ∧ output.lines ≠ [] := by
  constructor
  · rintro ⟨f, hf, herror⟩
    obtain ⟨line, hline, rfl⟩ := List.mem_map.mp hf
    rw [isError, severity_ofLine, beq_iff_eq] at herror
    exact ⟨herror, mt ofOutput_eq_nil_iff.mpr (List.ne_nil_of_mem hf)⟩
  · rintro ⟨rfl, hlines⟩
    obtain ⟨f, hf⟩ := List.exists_mem_of_ne_nil _ (mt ofOutput_eq_nil_iff.mp hlines)
    obtain ⟨line, -, rfl⟩ := List.mem_map.mp hf
    refine ⟨_, hf, ?_⟩
    rw [isError, severity_ofLine, beq_self_eq_true]

end Finding

/-! ## Work that takes notes -/

namespace Noting

variable {I : Interface} {ε α β : Type} {work : Noting ε (Program I) α}
  {f : α → Noting ε (Program I) β} {run : List (Exchange I)} {a : α} {b : β}

/-- The work comes to a value in a run, from some notes. -/
def Gives (work : Noting ε (Program I) α) (run : List (Exchange I)) (a : α) : Prop :=
  ∃ notes notes', Reaches ((work.run).run notes) run (.done (.ok a, notes'))

theorem run_bind (work : Noting ε (Program I) α) (f : α → Noting ε (Program I) β)
    (notes : List Note) :
    ((work >>= f).run).run notes = (work.run).run notes >>= fun r =>
      match r.1 with
      | .ok a => ((f a).run).run r.2
      | .error e => .done (.error e, r.2) := by
  simp only [ExceptT.run_bind, StateT.run_bind]
  congr 1
  funext r
  rcases r with ⟨_ | _, _⟩ <;> rfl

/-- What comes to a value has come through its first part. -/
theorem Gives.exists_of_bind (h : Gives (work >>= f) run b) :
    ∃ first second a, run = first ++ second ∧ Gives work first a ∧ Gives (f a) second b := by
  obtain ⟨notes, notes', h⟩ := h
  rw [run_bind, reaches_bind_iff] at h
  obtain ⟨first, second, ⟨result, between⟩, rfl, hfirst, hsecond⟩ := h
  cases result with
  | error e => exact nomatch (reaches_done_iff.mp hsecond).2
  | ok a => exact ⟨first, second, a, rfl, ⟨notes, between, hfirst⟩, ⟨between, notes', hsecond⟩⟩

theorem gives_pure_iff {a' : α} :
    Gives (pure a : Noting ε (Program I) α) run a' ↔ run = [] ∧ a' = a := by
  constructor
  · rintro ⟨notes, notes', h⟩
    obtain ⟨rfl, hdone⟩ := reaches_done_iff.mp h
    cases hdone
    exact ⟨rfl, rfl⟩
  · rintro ⟨rfl, rfl⟩
    exact ⟨[], [], .refl _⟩

theorem not_gives_throw {e : ε} : ¬ Gives (throw e : Noting ε (Program I) α) run a := by
  rintro ⟨notes, notes', h⟩
  exact nomatch (reaches_done_iff.mp h).2

/-- Taking a note asks nothing. -/
theorem Gives.of_note {n : Note} {rest : Noting ε (Program I) α}
    (h : Gives (do note n; rest) run a) : Gives rest run a := by
  obtain ⟨notes, notes', h⟩ := h
  exact ⟨notes ++ [n], notes', h⟩

theorem run_perform (action : Program I α) (notes : List Note) :
    ((perform action : Noting ε (Program I) α).run).run notes =
      action >>= fun a => .done (.ok a, notes) := by
  simp only [perform, ExceptT.run_lift, StateT.run_map, StateT.run_lift, map_bind]
  rfl

theorem Gives.reaches {action : Program I α}
    (h : Gives (perform action : Noting ε (Program I) α) run a) : Reaches action run (.done a) := by
  obtain ⟨notes, notes', h⟩ := h
  rw [run_perform, reaches_bind_done_iff] at h
  obtain ⟨a', h, heq⟩ := h
  cases heq
  exact h

theorem gives_of_collect {notes : List Note}
    (h : Reaches work.collect run (.done (notes, .ok a))) : Gives work run a := by
  obtain ⟨⟨result, notes'⟩, hrun, heq⟩ := reaches_bind_done_iff.mp h
  cases heq
  exact ⟨[], notes', hrun⟩

end Noting

/-! ## Single checks -/

namespace Buf

variable {buf : Buf} {git : Git} {root name : String} {options : List String}
  {run : List (Exchange Host.interface)} {found : List Finding} {output : ToolOutput}

/-- How the checker is run. -/
def command (buf : Buf) (root name : String) (options : List String) : ToolCommand where
  program := buf.program
  arguments := name :: options
  directory := some root
  timeout := some 60000

/-- A command of the checker ends. -/
def ran (buf : Buf) (root name : String) (options : List String) (code : Option Int)
    (out err : List UInt8) : Exchange Host.interface :=
  ⟨.spawn (buf.command root name options), .exited code out err⟩

theorem cases_of_invoke (h : Noting.Gives (buf.invoke root name options) run output) :
    ∃ code out err, run = [buf.ran root name options code out err] ∧
      output = .capture code out err := by
  obtain ⟨first, second, result, rfl, hfirst, hsecond⟩ := h.exists_of_bind
  obtain ⟨ending, rest, rfl, hrest⟩ := reaches_ask_done_iff.mp hfirst.reaches
  obtain ⟨rfl, hdone⟩ := reaches_done_iff.mp hrest
  cases hdone
  cases ending with
  | exited code out err =>
    obtain ⟨rfl, rfl⟩ := Noting.gives_pure_iff.mp hsecond
    exact ⟨code, out, err, rfl, rfl⟩
  | timedOut => exact absurd hsecond Noting.not_gives_throw
  | notStarted reason => exact absurd hsecond Noting.not_gives_throw

theorem success_capture {code : Option Int} {out err : List UInt8} :
    (ToolOutput.capture code out err).success = true ↔ code = some 0 := by
  cases code with
  | none => exact iff_of_false Bool.false_ne_true (Option.some_ne_none 0).symm
  | some c => simp [ToolOutput.success, ToolOutput.capture]

/-- A check runs one command, and finds nothing if this exits with zero. -/
theorem cases_of_judge {line : ToolOutput → String} {judge : ToolOutput → List Finding}
    (h : Noting.Gives (do
      let output ← buf.invoke root name options
      if output.success then return []
      Noting.log (line output)
      return judge output) run found) :
    ∃ code out err, run = [buf.ran root name options code out err] ∧
      found = if code = some 0 then [] else judge (.capture code out err) := by
  obtain ⟨first, second, output, rfl, hfirst, hsecond⟩ := h.exists_of_bind
  obtain ⟨code, out, err, rfl, rfl⟩ := cases_of_invoke hfirst
  refine ⟨code, out, err, ?_⟩
  split at hsecond
  · rename_i hsuccess
    obtain ⟨rfl, rfl⟩ := Noting.gives_pure_iff.mp hsecond
    exact ⟨rfl, (if_pos (success_capture.mp hsuccess)).symm⟩
  · rename_i hfailed
    obtain ⟨rfl, rfl⟩ := Noting.gives_pure_iff.mp hsecond.of_note
    exact ⟨rfl, (if_neg (mt success_capture.mpr hfailed)).symm⟩

/-! ## Strict checks -/

/-- The commands of the checks that make errors of their findings. -/
def strict : List (String × List String) :=
  [("build", []), ("breaking", ["--against", against])]

/-- A strict check fails, and has printed some lines. -/
inductive Fails (buf : Buf) (root : String) : List String → Exchange Host.interface → Prop where
  | ran {name : String} {options : List String} {code : Option Int} {out err : List UInt8}
      (hstrict : (name, options) ∈ strict) (hcode : code ≠ some 0) :
      Fails buf root (ToolOutput.capture code out err).lines
        (buf.ran root name options code out err)

theorem fails_ran_iff {said : List String} {code : Option Int} {out err : List UInt8} :
    Fails buf root said (buf.ran root name options code out err) ↔
      (name, options) ∈ strict ∧ code ≠ some 0 ∧
        said = (ToolOutput.capture code out err).lines := by
  constructor
  · generalize hx : buf.ran root name options code out err = x
    rintro ⟨hstrict, hcode⟩
    cases hx
    exact ⟨hstrict, hcode, rfl⟩
  · rintro ⟨hstrict, hcode, rfl⟩
    exact .ran hstrict hcode

/-- A strict check fails and says something. -/
def Alarm (buf : Buf) (root : String) (x : Exchange Host.interface) : Prop :=
  ∃ said, said ≠ [] ∧ Fails buf root said x

/-- There are errors among some findings exactly if there was an alarm. -/
def Heeded (buf : Buf) (root : String) (run : List (Exchange Host.interface))
    (found : List Finding) : Prop :=
  (∃ f ∈ found, f.isError = true) ↔ ∃ x ∈ run, Alarm buf root x

theorem Heeded.append {run' : List (Exchange Host.interface)} {found' : List Finding}
    (h : Heeded buf root run found) (h' : Heeded buf root run' found') :
    Heeded buf root (run ++ run') (found ++ found') := by
  simp only [Heeded, List.mem_append, or_and_right, exists_or] at h h' ⊢
  rw [h, h']

theorem heeded_nil (h : ∀ x ∈ run, ¬ Alarm buf root x) : Heeded buf root run [] := by
  refine iff_of_false ?_ ?_
  · rintro ⟨f, hf, -⟩
    exact nomatch hf
  · rintro ⟨x, hx, halarm⟩
    exact h x hx halarm

theorem alarm_ran_iff {code : Option Int} {out err : List UInt8} :
    Alarm buf root (buf.ran root name options code out err) ↔
      (name, options) ∈ strict ∧ code ≠ some 0 ∧ (ToolOutput.capture code out err).lines ≠ [] := by
  simp only [Alarm, fails_ran_iff]
  constructor
  · rintro ⟨said, hsaid, hstrict, hcode, rfl⟩
    exact ⟨hstrict, hcode, hsaid⟩
  · rintro ⟨hstrict, hcode, hsaid⟩
    exact ⟨_, hsaid, hstrict, hcode, rfl⟩

theorem Alarm.exists_strict {x : Exchange Host.interface} (h : Alarm buf root x) :
    ∃ name options, (name, options) ∈ strict ∧
      x.request = .spawn (buf.command root name options) := by
  obtain ⟨said, -, ⟨hstrict, -⟩⟩ := h
  exact ⟨_, _, hstrict, rfl⟩

/-- A check that makes findings of lines is heeded if it makes errors of them exactly if it is
strict. -/
theorem heeded_ofOutput {check : Check} {severity : Severity} {code : Option Int}
    {out err : List UInt8} (hstrict : (name, options) ∈ strict ↔ severity = .error) :
    Heeded buf root [buf.ran root name options code out err]
      (if code = some 0 then []
        else Finding.ofOutput check severity (ToolOutput.capture code out err).text) := by
  split
  · rename_i hcode
    refine heeded_nil fun x hx halarm => ?_
    rw [List.mem_singleton.mp hx, alarm_ran_iff] at halarm
    exact halarm.2.1 hcode
  · rename_i hcode
    simp only [Heeded, List.mem_singleton, exists_eq_left, alarm_ran_iff,
      Finding.exists_error_ofOutput_iff, hstrict]
    exact and_congr_right fun _ => (and_iff_right hcode).symm

theorem heeded_of_compilation (h : Noting.Gives (buf.compilation root) run found) :
    Heeded buf root run found := by
  obtain ⟨code, out, err, rfl, rfl⟩ := cases_of_judge h.of_note
  exact heeded_ofOutput (by decide)

theorem heeded_of_lint (h : Noting.Gives (buf.lint root) run found) :
    Heeded buf root run found := by
  obtain ⟨code, out, err, rfl, rfl⟩ := cases_of_judge h.of_note
  exact heeded_ofOutput (by decide)

/-- What is not formatted is no error, and the check of the format is not strict. -/
theorem heeded_of_format (h : Noting.Gives (buf.format root) run found) :
    Heeded buf root run found := by
  obtain ⟨code, out, err, rfl, rfl⟩ := cases_of_judge h.of_note
  refine iff_of_false ?_ ?_
  · rintro ⟨f, hf, herror⟩
    split at hf
    · exact nomatch hf
    · rw [List.mem_singleton.mp hf] at herror
      exact nomatch herror
  · rintro ⟨x, hx, halarm⟩
    rw [List.mem_singleton.mp hx, alarm_ran_iff] at halarm
    exact absurd halarm.1 (by decide)

theorem not_alarm_of_history {known : Bool}
    (h : Reaches (git.hasHistory root) run (.done known)) : ∀ x ∈ run, ¬ Alarm buf root x := by
  obtain ⟨ending, rest, rfl, hrest⟩ := reaches_ask_done_iff.mp h
  have hnil : rest = [] := by
    cases ending <;> exact (reaches_done_iff.mp hrest).1
  intro x hx
  rw [hnil, List.mem_singleton] at hx
  subst hx
  intro halarm
  obtain ⟨name, options, hstrict, hrequest⟩ := halarm.exists_strict
  -- the arguments of the other tool begin with an option, those of the checker with a name
  obtain ⟨rfl, -⟩ :=
    List.cons.inj (congrArg ToolCommand.arguments (Host.Request.spawn.inj hrequest))
  exact absurd hstrict (by simp [strict])

theorem heeded_of_breaking
    (h : Noting.Gives (buf.breaking (git.hasHistory root) root) run found) :
    Heeded buf root run found := by
  obtain ⟨first, second, known, rfl, hfirst, hsecond⟩ := h.exists_of_bind
  have hhistory : Heeded buf root first [] := heeded_nil (not_alarm_of_history hfirst.reaches)
  refine hhistory.append ?_
  split at hsecond
  · obtain ⟨rfl, rfl⟩ := Noting.gives_pure_iff.mp hsecond.of_note
    exact heeded_nil fun x hx => nomatch hx
  · obtain ⟨code, out, err, rfl, rfl⟩ := cases_of_judge hsecond.of_note
    exact heeded_ofOutput (by decide)

theorem heeded_of_when {enabled : Bool} {check : Checking (List Finding)}
    (hcheck : ∀ run found, Noting.Gives check run found → Heeded buf root run found)
    (h : Noting.Gives (Buf.when enabled check) run found) : Heeded buf root run found := by
  cases enabled with
  | true => exact hcheck run found h
  | false =>
    obtain ⟨rfl, rfl⟩ := Noting.gives_pure_iff.mp h
    exact heeded_nil fun x hx => nomatch hx

/-! ## What is run -/

/-- A command of the checker has been run to its end. -/
def HasRun (buf : Buf) (root name : String) (options : List String)
    (run : List (Exchange Host.interface)) : Prop :=
  ∃ code out err, buf.ran root name options code out err ∈ run

theorem hasRun_of_compilation (h : Noting.Gives (buf.compilation root) run found) :
    buf.HasRun root "build" [] run := by
  obtain ⟨code, out, err, rfl, -⟩ := cases_of_judge h.of_note
  exact ⟨code, out, err, .head _⟩

/-- Without a commit to compare with there is no comparison. -/
theorem hasRun_of_breaking
    (h : Noting.Gives (buf.breaking (git.hasHistory root) root) run found) :
    buf.HasRun root "breaking" ["--against", against] run ∨
      ∃ part, part <:+: run ∧ Reaches (git.hasHistory root) part (.done false) := by
  obtain ⟨first, second, known, rfl, hfirst, hsecond⟩ := h.exists_of_bind
  cases known with
  | false => exact Or.inr ⟨first, (List.prefix_append first second).isInfix, hfirst.reaches⟩
  | true =>
    obtain ⟨code, out, err, rfl, -⟩ := cases_of_judge (Noting.Gives.of_note hsecond)
    exact Or.inl ⟨code, out, err, List.mem_append_right first (.head _)⟩

/-! ## All checks -/

variable {lake : Workspace} {report : CheckReport} {x : Exchange Host.interface}

/-- What the report on a lake says of the run in which it was made.  It is unsuccessful exactly if
there was an alarm.  Either the checks were skipped, because they are turned off or have nothing to
check, or all strict checks that are turned on were run, except a comparison with nothing. -/
structure Reported (buf : Buf) (git : Git) (lake : Workspace)
    (run : List (Exchange Host.interface)) (report : CheckReport) : Prop where
  unsuccessful_iff : report.success = false ↔ ∃ x ∈ run, Alarm buf lake.root x
  skipped : report.skipped ≠ none → report.success = true ∧ (lake.validation.enabled = false ∨
    ⟨.kind (Path.join lake.root "buf.yaml"), none⟩ ∈ run)
  compiled : report.skipped = none → lake.validation.compilation = true →
    buf.HasRun lake.root "build" [] run
  compared : report.skipped = none → lake.validation.breaking = true →
    buf.HasRun lake.root "breaking" ["--against", against] run ∨
      ∃ part, part <:+: run ∧ Reaches (git.hasHistory lake.root) part (.done false)

theorem reported_ofSkip (reason : String) (hrun : ∀ x ∈ run, ¬ Alarm buf lake.root x)
    (hskip : lake.validation.enabled = false ∨
      ⟨.kind (Path.join lake.root "buf.yaml"), none⟩ ∈ run) :
    Reported buf git lake run (.ofSkip reason) where
  unsuccessful_iff := by
    refine iff_of_false Bool.noConfusion ?_
    rintro ⟨x, hx, halarm⟩
    exact hrun x hx halarm
  skipped _ := ⟨rfl, hskip⟩
  compiled h := nomatch h
  compared h := nomatch h

theorem reported_of_runChecks
    (h : Noting.Gives (buf.runChecks (git.hasHistory lake.root) lake) run report) :
    Reported buf git lake run report := by
  obtain ⟨r₁, r, compiled, rfl, h₁, h⟩ := h.exists_of_bind
  obtain ⟨r₂, r, linted, rfl, h₂, h⟩ := h.exists_of_bind
  obtain ⟨r₃, r, compared, rfl, h₃, h⟩ := h.exists_of_bind
  obtain ⟨r₄, r, formatted, rfl, h₄, h⟩ := h.exists_of_bind
  obtain ⟨rfl, rfl⟩ := Noting.gives_pure_iff.mp h
  have hheeded : Heeded buf lake.root (r₁ ++ r₂ ++ r₃ ++ r₄)
      (compiled ++ linted ++ compared ++ formatted) :=
    (((heeded_of_when (fun _ _ => heeded_of_compilation) h₁).append
      (heeded_of_when (fun _ _ => heeded_of_lint) h₂)).append
      (heeded_of_when (fun _ _ => heeded_of_breaking) h₃)).append
      (heeded_of_when (fun _ _ => heeded_of_format) h₄)
  rw [List.append_nil, ← List.append_assoc, ← List.append_assoc]
  refine
    { unsuccessful_iff := Iff.trans ?_ hheeded
      skipped := fun hskip => absurd rfl hskip
      compiled := fun _ henabled => ?_
      compared := fun _ henabled => ?_ }
  · rw [CheckReport.ofFindings, Bool.not_eq_false', List.any_eq_true]
  · rw [henabled] at h₁
    obtain ⟨code, out, err, hmem⟩ := hasRun_of_compilation h₁
    exact ⟨code, out, err, by simp [hmem]⟩
  · rw [henabled] at h₃
    have hpart : r₃ <:+: r₁ ++ r₂ ++ r₃ ++ r₄ := List.infix_append _ r₃ r₄
    rcases hasRun_of_breaking h₃ with ⟨code, out, err, hmem⟩ | ⟨part, hinfix, hnone⟩
    · exact Or.inl ⟨code, out, err, hpart.subset hmem⟩
    · exact Or.inr ⟨part, hinfix.trans hpart, hnone⟩

/-- An exchange before the run that is no alarm changes nothing. -/
theorem Reported.cons (h : Reported buf git lake run report) (hx : ¬ Alarm buf lake.root x) :
    Reported buf git lake (x :: run) report where
  unsuccessful_iff := by
    rw [h.unsuccessful_iff, List.exists_mem_cons_iff, or_iff_right hx]
  skipped hskip := ⟨(h.skipped hskip).1, (h.skipped hskip).2.imp_right (List.mem_cons_of_mem x)⟩
  compiled hskip henabled := by
    obtain ⟨code, out, err, hmem⟩ := h.compiled hskip henabled
    exact ⟨code, out, err, List.mem_cons_of_mem x hmem⟩
  compared hskip henabled := by
    have hpart : run <:+: x :: run := (List.suffix_cons x run).isInfix
    rcases h.compared hskip henabled with ⟨code, out, err, hmem⟩ | ⟨part, hinfix, hnone⟩
    · exact Or.inl ⟨code, out, err, hpart.subset hmem⟩
    · exact Or.inr ⟨part, hinfix.trans hpart, hnone⟩

theorem reported_of_check
    (h : Noting.Gives (buf.check (git.hasHistory lake.root) lake) run report) :
    Reported buf git lake run report := by
  rw [check] at h
  split at h
  · rename_i hdisabled
    obtain ⟨rfl, rfl⟩ := Noting.gives_pure_iff.mp h
    exact reported_ofSkip _ (fun x hx => nomatch hx) (Or.inl (by simpa using hdisabled))
  · obtain ⟨first, second, there, rfl, hfirst, hsecond⟩ := h.exists_of_bind
    obtain ⟨kind, rest, rfl, hrest⟩ := reaches_ask_done_iff.mp hfirst.reaches
    obtain ⟨rfl, hthere⟩ := reaches_done_iff.mp hrest
    have hlook : ¬ Alarm buf lake.root ⟨.kind (Path.join lake.root "buf.yaml"), kind⟩ := by
      intro halarm
      obtain ⟨name, options, -, hrequest⟩ := halarm.exists_strict
      exact nomatch hrequest
    split at hsecond
    · rename_i hmissing
      obtain ⟨rfl, rfl⟩ := Noting.gives_pure_iff.mp hsecond
      cases hthere
      cases kind with
      | none =>
        refine reported_ofSkip _ (fun x hx => ?_) (Or.inr (.head _))
        rw [List.mem_singleton.mp hx]
        exact hlook
      | some k => exact nomatch hmissing
    · exact (reported_of_runChecks hsecond).cons hlook

end Buf

/-! ## The build that goes on, or not -/

namespace Pipeline

theorem mem_calls_of_called {run : Run} {c : Call} {answer : c.Answer}
    (h : called c answer ∈ run) : (⟨c, answer⟩ : Answered) ∈ calls run :=
  List.mem_filterMap.mpr ⟨_, h, rfl⟩

end Pipeline

namespace Buf

variable {buf : Buf} {git : Git} {lake : Workspace} {checked : List (Exchange Host.interface)}
  {notes : List Note} {answer : Except ToolError CheckReport}

/-- After an alarm there is no successful report: the stage fails. -/
theorem fails_of_alarm
    (h : Reaches (buf.check (git.hasHistory lake.root) lake).collect checked
      (.done (notes, answer)))
    (halarm : ∃ x ∈ checked, Alarm buf lake.root x) (goOn : Bool) :
    Pipeline.Answered.fails goOn ⟨.validate lake, (notes, answer)⟩ = true := by
  cases answer with
  | error e => rfl
  | ok report =>
    have hreported := reported_of_check (Noting.gives_of_collect h)
    have hfailed : report.success = false := hreported.unsuccessful_iff.mpr halarm
    have hskipped : report.skipped = none := by
      by_contra hskipped
      rw [(hreported.skipped hskipped).1] at hfailed
      exact nomatch hfailed
    show (report.skipped.isNone && ! report.success) = true
    rw [hfailed, hskipped]
    rfl

/-- **What the checker's word is worth.**  However the tools behave, a report on a lake is
unsuccessful exactly if a check that compiles or compares has failed and has printed a line that is
not blank, and all such checks that are turned on were run for it unless it says that it was
skipped.  If a check has failed so, then a build that hears what came of the checks makes no call
after them, whether there is a report or not. -/
theorem reported_and_stops
    (h : Reaches (buf.check (git.hasHistory lake.root) lake).collect checked
      (.done (notes, answer))) :
    (∀ report, answer = .ok report → Reported buf git lake checked report) ∧
    ((∃ x ∈ checked, Alarm buf lake.root x) →
      ∀ (target : String) (options : BuildOptions) (recorded : Workspace)
        (requested branch : String) (time : UInt64) (run : Pipeline.Run)
        (rest : Program Pipeline.interface (Except PipelineError BuildResult × Progress)),
        Reaches (Pipeline.run lake target options (.initial recorded requested branch time)) run
          rest →
        Pipeline.called (.validate lake) (notes, answer) ∈ run →
          ∀ x ∈ Pipeline.calls run, x.1.rank ≤ (Call.validate lake).rank) := by
  refine ⟨?_, ?_⟩
  · rintro report rfl
    exact reported_of_check (Noting.gives_of_collect h)
  · intro halarm target options recorded requested branch time run rest hrun hcalled x hx
    have hproper := Pipeline.proper_of_reaches
      (Progress.between_initial recorded requested branch time) hrun
    exact hproper.inOrder.rank_le (Pipeline.mem_calls_of_called hcalled)
      (fails_of_alarm h halarm _) hx

/-- A lake whose definitions only have to compile. -/
def compiledLake : Workspace :=
  { root := "/lake", validation := { lint := false, breaking := false } }

/-- The run of the checks on it, if the definitions do not compile and something is printed. -/
def failedRun (out : List UInt8) : List (Exchange Host.interface) :=
  [⟨.kind "/lake/buf.yaml", some .file⟩, ran {} "/lake" "build" [] (some 1) out []]

/-- The notes that are taken then. -/
def failedNotes (out : List UInt8) : List Note :=
  [.subPhase "Running proto compilation checks",
    .log ("Compilation errors found:\n" ++ trimmed (ToolOutput.capture (some 1) out []).text)]

/-- The report then. -/
def failedReport (out : List UInt8) : CheckReport :=
  .ofFindings (Finding.ofOutput .compilation .error (ToolOutput.capture (some 1) out []).text)

theorem reaches_failedRun (out : List UInt8) :
    Reaches (({} : Buf).check (({} : Git).hasHistory "/lake") compiledLake).collect
      (failedRun out) (.done (failedNotes out, .ok (failedReport out))) := by
  have hreport : failedReport out = .ofFindings (Finding.ofOutput .compilation .error
      (ToolOutput.capture (some 1) out []).text ++ [] ++ [] ++ []) := by
    simp only [List.append_nil, failedReport]
  rw [hreport]
  exact .ask (.ask (.refl _))

theorem lines_of_failedRun (out : List UInt8) :
    (ToolOutput.capture (some 1) out []).lines = ToolOutput.linesOf out := by
  rw [ToolOutput.lines_capture, ToolOutput.linesOf_nil, List.append_nil]

theorem fails_of_failedRun (out : List UInt8) :
    ∃ x ∈ failedRun out, Fails {} "/lake" (ToolOutput.linesOf out) x := by
  rw [← lines_of_failedRun]
  exact ⟨_, .tail _ (.head _), .ran (by decide) (by decide)⟩

/-- The answers to a build whose checks end with some answer, while all else succeeds. -/
def checking (answer : List Note × Except ToolError CheckReport) :
    (q : Pipeline.Request) → q.Answer
  | .call (.validate _) => answer
  | q => Pipeline.success q

/-- The run of such a build. -/
def checkingRun (answer : List Note × Except ToolError CheckReport) : Pipeline.Run :=
  ((Pipeline.run compiledLake "." {} (.initial compiledLake "." "main" 0)).replay
    (checking answer)).1

theorem called_of_checkingRun (answer : List Note × Except ToolError CheckReport) :
    Pipeline.called (.validate compiledLake) answer ∈ checkingRun answer :=
  List.mem_of_getElem? (i := 14) rfl

/-- Definitions that do not compile, of which the checker says so: the build ends there. -/
theorem stops_of_line :
    ∃ notes report, Reaches (({} : Buf).check (({} : Git).hasHistory "/lake")
        compiledLake).collect (failedRun (Utf8.asciiBytes "x")) (.done (notes, .ok report)) ∧
      (∃ x ∈ failedRun (Utf8.asciiBytes "x"), Alarm {} "/lake" x) ∧ report.success = false ∧
      ∀ x ∈ Pipeline.calls (checkingRun (notes, .ok report)), x.1.rank ≤ 2 := by
  have hrun := reaches_failedRun (Utf8.asciiBytes "x")
  obtain ⟨hreport, hends⟩ := reported_and_stops hrun
  have halarm : ∃ x ∈ failedRun (Utf8.asciiBytes "x"), Alarm {} "/lake" x := by
    obtain ⟨x, hx, hfails⟩ := fails_of_failedRun (Utf8.asciiBytes "x")
    have hsaid : ToolOutput.linesOf (Utf8.asciiBytes "x") ≠ [] := by
      rw [ToolOutput.linesOf_asciiBytes (by decide)]
      decide
    exact ⟨x, hx, _, hsaid, hfails⟩
  exact ⟨_, _, hrun, halarm, (hreport _ rfl).unsuccessful_iff.mpr halarm,
    hends halarm _ _ _ _ _ _ _ _ (reaches_replay _ _) (called_of_checkingRun _)⟩

/-- Definitions that do not compile, of which the checker says nothing: the report is successful,
and the build goes on. -/
theorem silent_failure_passes :
    ∃ notes report, Reaches (({} : Buf).check (({} : Git).hasHistory "/lake")
        compiledLake).collect (failedRun []) (.done (notes, .ok report)) ∧
      (∃ x ∈ failedRun [], Fails {} "/lake" [] x) ∧ report.success = true ∧
      ∃ x ∈ Pipeline.calls (checkingRun (notes, .ok report)), 2 < x.1.rank := by
  have hlines : (ToolOutput.capture (some 1) [] []).lines = [] := by
    rw [lines_of_failedRun, ToolOutput.linesOf_nil]
  have hreport : failedReport [] = .ofFindings [] := by
    rw [failedReport, Finding.ofOutput_eq_nil_iff.mpr hlines]
  refine ⟨_, _, reaches_failedRun [], ?_, ?_, ?_⟩
  · have hfails := fails_of_failedRun []
    rwa [ToolOutput.linesOf_nil] at hfails
  · rw [hreport]
    rfl
  · rw [hreport]
    exact ⟨_, .tail _ (.tail _ (.tail _ (.head _))), by decide⟩

end Buf
end ProtoBuild
