import ProtoBuild.Proofs.Pipeline.Upkeep
import ProtoBuild.Proofs.Tool.Output

/-!
# What is kept of the output of a tool

Of what the build tool prints two excerpts are kept for a unit that has failed.  Its log gets the
last fifty lines, and the reason that it has failed ends with the last five.  Whoever reads the
reason looks for its place in the log, so the one should be the end of the other.  Both are taken
from the output itself, and lines are cut and put together again each time; that they agree rests
on `ToolOutput.lines_tail`: what was put together from lines is cut into the same lines.

`Explained` is what holds of a build all the time: each failed unit was given to the build tool,
and its record tells of the answer (`UnitRecord.Tells`).  The log of a unit that has failed may
still grow, since nothing keeps a unit from being listed twice, but no entry of it is lost.
-/

namespace ProtoBuild

open Pipeline Work

/-- The record of a unit tells why it has failed: of an output with the end of an entry of its log,
and of an error with its message. -/
def UnitRecord.Tells (u : UnitRecord) (reason : String) : Except ToolError ToolOutput → Prop
  | .ok output =>
    reason = "exit code " ++ toString output.exitCode ++ "\n" ++ output.tail 5 ∧
      ∃ entry ∈ u.logs, entry = output.tail keptLines ∧ (output.tail 5).toList <:+ entry.toList
  | .error e =>
    reason = e.message ∧
      ∀ text, e.output? = some text → ToolOutput.tail ⟨-1, text⟩ keptLines ∈ u.logs

namespace UnitRecord

variable {u u' : UnitRecord} {reason : String} {answer : Except ToolError ToolOutput}

/-- What a record tells it tells as long as no entry of its log is lost. -/
theorem Tells.mono (h : u.Tells reason answer) (hlogs : u.logs ⊆ u'.logs) :
    u'.Tells reason answer := by
  cases answer with
  | ok output =>
    obtain ⟨hreason, entry, hentry, hrest⟩ := h
    exact ⟨hreason, entry, hlogs hentry, hrest⟩
  | error e => exact ⟨h.1, fun text htext => hlogs (h.2 text htext)⟩

/-- Both excerpts are from one output. -/
theorem tells_of_mem {output : ToolOutput} (h : output.tail keptLines ∈ u.logs) :
    u.Tells ("exit code " ++ toString output.exitCode ++ "\n" ++ output.tail 5) (.ok output) :=
  ⟨rfl, _, h, rfl, output.tail_suffix_tail (by decide)⟩

theorem logs_move (u : UnitRecord) (next : UnitStatus) (time : UInt64) :
    (u.move next time).1.logs = u.logs := by
  unfold move
  split <;> rfl

theorem logs_published (lake : Workspace) (unit label : String) (time : UInt64)
    (u : UnitRecord) : (publishedUnit lake unit label time u).logs = u.logs := by
  unfold publishedUnit
  extract_lets v
  have hv : v.logs = u.logs := by
    unfold v
    split <;> rfl
  split
  · rw [logs_move, hv]
  · exact hv

theorem logs_fail (u : UnitRecord) (reason : String) (time : UInt64) :
    (u.fail reason time).1.logs = u.logs := by
  have hmove := u.logs_move .failed time
  unfold fail
  split
  · rename_i moved heq
    rw [heq] at hmove
    exact hmove
  · rfl

/-- A record that fails has the new reason, or the one it had. -/
theorem error_fail (u : UnitRecord) (reason : String) (time : UInt64) :
    (u.fail reason time).1.error = some reason ∨ (u.fail reason time).1.error = u.error := by
  unfold fail
  split
  · exact .inl rfl
  · exact .inr rfl

end UnitRecord

/-- From one progress to another no unit has got an error, and no log has lost an entry. -/
def Progress.NoNewErrors (p p' : Progress) : Prop :=
  ∀ key u', p'.units.get? key = some u' →
    u'.error = none ∨ ∃ u, p.units.get? key = some u ∧ u'.error = u.error ∧ u.logs ⊆ u'.logs

namespace Progress

variable {p p' : Progress}

theorem noNewErrors_of_units_eq (h : p'.units = p.units) : p.NoNewErrors p' := by
  intro key u' hu'
  rw [h] at hu'
  exact .inr ⟨u', hu', rfl, List.Subset.refl _⟩

theorem noNewErrors_modifyUnit (p : Progress) (unit : String) {g : UnitRecord → UnitRecord}
    (herror : ∀ u, (g u).error = u.error) (hlogs : ∀ u, u.logs ⊆ (g u).logs) :
    p.NoNewErrors (p.modifyUnit unit g) := by
  intro key u' hu'
  obtain ⟨u, hu, rfl⟩ := get?_modifyUnit hu'
  refine .inr ⟨u, hu, ?_⟩
  split
  · exact ⟨herror u, hlogs u⟩
  · exact ⟨rfl, List.Subset.refl _⟩

theorem noNewErrors_withUnits (p : Progress) (units : List String) (version : String) :
    p.NoNewErrors (p.withUnits units version) := by
  intro key u' hu'
  rcases StringMap.get?_foldl_insert hu' with ⟨-, rfl⟩ | hu
  · exact .inl rfl
  · exact .inr ⟨u', hu, rfl, List.Subset.refl _⟩

end Progress

namespace Pipeline

open Progress

variable {lake : Workspace} {run : Run} {p p' : Progress} {unit reason : String}
  {args : List String} {answer : Except ToolError ToolOutput}

/-- Each unit with an error was given to the build tool, and its record tells of the answer. -/
def Explained (lake : Workspace) : Assertion := fun run p =>
  ∀ key u reason, p.units.get? key = some u → u.error = some reason →
    ∃ args answer, (⟨.build lake.root args (Path.pattern key), answer⟩ : Answered) ∈ calls run ∧
      u.Tells reason answer

namespace Explained

theorem of_noNewErrors (h : Explained lake run p) (hp : p.NoNewErrors p') :
    Explained lake run p' := by
  intro key u' reason hu' herror
  rcases hp key u' hu' with hnone | ⟨u, hu, herror', hlogs⟩
  · rw [hnone] at herror
    cases herror
  · obtain ⟨args, answer, hcall, htells⟩ := h key u reason hu (herror'.symm.trans herror)
    exact ⟨args, answer, hcall, htells.mono hlogs⟩

theorem append (h : Explained lake run p) (more : Run) : Explained lake (run ++ more) p := by
  intro key u reason hu herror
  obtain ⟨args, answer, hcall, htells⟩ := h key u reason hu herror
  refine ⟨args, answer, ?_, htells⟩
  rw [calls_append]
  exact List.mem_append_left _ hcall

theorem modifyUnit (h : Explained lake run p) (unit : String) {g : UnitRecord → UnitRecord}
    (herror : ∀ u, (g u).error = u.error) (hlogs : ∀ u, u.logs ⊆ (g u).logs) :
    Explained lake run (p.modifyUnit unit g) :=
  h.of_noNewErrors (p.noNewErrors_modifyUnit unit herror hlogs)

theorem move (h : Explained lake run p) (unit : String) (next : UnitStatus) (time : UInt64) :
    Explained lake run (p.modifyUnit unit fun u => (u.move next time).1) :=
  h.modifyUnit unit (fun u => u.error_move next time) fun u => by
    rw [u.logs_move]
    exact List.Subset.refl _

theorem addLog (h : Explained lake run p) (unit text : String) :
    Explained lake run (p.modifyUnit unit (·.addLog text)) :=
  h.modifyUnit unit (fun _ => rfl) fun _ => List.subset_append_left _ _

/-- A unit fails after its log tells of the answer. -/
theorem fail (h : Explained lake run p) (time : UInt64)
    (hcall : (⟨.build lake.root args (Path.pattern unit), answer⟩ : Answered) ∈ calls run)
    (htells : ∀ u, p.units.get? unit = some u → u.Tells reason answer) :
    Explained lake run (p.modifyUnit unit fun u => (u.fail reason time).1) := by
  intro key u' reason' hu' herror
  obtain ⟨u, hu, rfl⟩ := get?_modifyUnit hu'
  split at herror
  · rename_i hkey
    subst hkey
    rw [if_pos rfl]
    have hlogs : u.logs ⊆ (u.fail reason time).1.logs := by
      rw [u.logs_fail]
      exact List.Subset.refl _
    rcases u.error_fail reason time with hnew | hold
    · obtain rfl : reason' = reason := Option.some.inj (herror.symm.trans hnew)
      exact ⟨args, answer, hcall, (htells u hu).mono hlogs⟩
    · obtain ⟨args', answer', hcall', htells'⟩ := h key u reason' hu (hold.symm.trans herror)
      exact ⟨args', answer', hcall', htells'.mono hlogs⟩
  · rename_i hkey
    rw [if_neg hkey]
    exact h key u reason' hu herror

end Explained

/-! ## One attempt -/

/-- What was added to the log of a unit is in it. -/
theorem mem_logs_of_addLog {text : String} {u : UnitRecord}
    (hu : (p.modifyUnit unit (·.addLog text)).units.get? unit = some u) : text ∈ u.logs := by
  obtain ⟨v, -, rfl⟩ := get?_modifyUnit hu
  rw [if_pos rfl]
  exact List.mem_append_right _ List.mem_cons_self

/-- The attempt of a unit explains its failure. -/
theorem preserves_buildUnit (lake : Workspace) (args : List String) (unit : String) :
    Preserves (Explained lake) (buildUnit lake args unit) := by
  intro run p hp
  simp only [buildUnit, ensures_bind, ensures_modifyPhase, ensures_now, ensures_modifyUnit]
  intro started
  refine (ensures_call _).mpr fun answer ended => ?_
  have hcall : (⟨.build lake.root args (Path.pattern unit), answer⟩ : Answered) ∈
      calls (run ++ [timed started] ++
        [called (.build lake.root args (Path.pattern unit)) answer] ++ [timed ended]) := by
    simp
  have hnoted : Explained lake run (p.modifyPhase .build fun r =>
      (r.setSubPhase ("Building " ++ unit)).addLog ("Building: " ++ unit)) :=
    hp.of_noNewErrors (noNewErrors_of_units_eq rfl)
  have hbuilding : Explained lake
      (run ++ [timed started] ++ [called (.build lake.root args (Path.pattern unit)) answer] ++
        [timed ended]) _ :=
    (((hnoted.move unit .building started).append _).append _).append _
  cases answer with
  | error e =>
    dsimp only
    split
    · rename_i text htext
      simp only [ensures_bind, ensures_modifyUnit, failUnit, ensures_pure]
      refine (hbuilding.addLog unit _).fail ended hcall fun u hu => ⟨rfl, fun text' htext' => ?_⟩
      obtain rfl : text = text' := Option.some.inj (htext.symm.trans htext')
      exact mem_logs_of_addLog hu
    · rename_i hnone
      simp only [ensures_bind, ensures_modifyUnit, failUnit, ensures_pure]
      refine hbuilding.fail ended hcall fun u hu => ⟨rfl, fun text htext => ?_⟩
      rw [hnone] at htext
      cases htext
  | ok output =>
    have hlogged := hbuilding.addLog unit (output.tail keptLines)
    simp only [ensures_bind, ensures_modifyUnit]
    split
    · have hbuilt := hlogged.move unit .built ended
      simp only [ensures_bind, ensures_modifyUnit]
      split
      · simp only [ensures_bind, ensures_modifyPhase, ensures_pure]
        exact hbuilt.of_noNewErrors (noNewErrors_of_units_eq rfl)
      · simp only [ensures_bind, ensures_modifyPhase, ensures_pure]
        exact hbuilt.of_noNewErrors (noNewErrors_of_units_eq rfl)
    · simp only [ensures_bind, ensures_modifyUnit, failUnit, ensures_pure]
      exact hlogged.fail ended hcall fun u hu => UnitRecord.tells_of_mem (mem_logs_of_addLog hu)

/-! ## The whole build -/

theorem lasts_explained (lake : Workspace) : Lasts lake (Explained lake) where
  steady := {
    modify := fun _ hf hp => hp.of_noNewErrors (noNewErrors_of_units_eq (hf.units_eq _))
    request := fun _ _ _ hp => hp.append _
    push := fun hp => hp.append _ }
  added units version hp := hp.of_noNewErrors (noNewErrors_withUnits _ units version)
  attempt args unit := preserves_buildUnit lake args unit
  skipped unit time hp := hp.move unit .skipped time
  published unit label time hp := hp.modifyUnit unit
    (fun u => u.error_published lake unit label time) fun u => by
      rw [u.logs_published lake unit label time]
      exact List.Subset.refl _
  noted unit text hp := hp.addLog unit text

/-- A build that begins with no failed unit explains each that has failed at its end. -/
theorem explained_of_reaches {target : String} {options : BuildOptions}
    {result : Except PipelineError BuildResult} {q : Progress}
    (h : Program.Reaches (Pipeline.run lake target options p) run (.done (result, q)))
    (hnew : ∀ key u, p.units.get? key = some u → u.error = none) : Explained lake run q := by
  have hstart : Explained lake [] { p with lake := some (p.lake.getD lake) } := by
    intro key u reason hu herror
    rw [hnew key u hu] at herror
    cases herror
  have hends := Program.ensures_iff.mp
    ((lasts_explained lake).wholeBuild target options hstart) run (result, q) h
  cases result <;> exact hends

end Pipeline

/-- **No line of a tool's output is lost, and excerpts of it fit into one another.**  The lines of
what `Host.runTool` captures are those of the standard output and then those of the standard error;
the last lines of an output, read again, are these lines; fewer of them can be taken from more of
them; and so a build tells of each unit that has failed with the end of what it has logged. -/
theorem ToolOutput.excerpts_nest :
    (∀ (command : ToolCommand) (description : String) (code : Option Int) (out err : List UInt8),
      ∃ output : ToolOutput,
        (∀ result, Program.Reaches (Host.runTool command description)
          [⟨.spawn command, ToolEnding.exited code out err⟩] (.done result) ↔
            result = .ok output) ∧
        output.lines = linesOf out ++ linesOf err) ∧
    (∀ (output : ToolOutput) (code : Int) (n : Nat),
      output.tail n = joinStrings '\n' (output.lines.rtake n) ∧
        (ToolOutput.mk code (output.tail n)).lines = output.lines.rtake n) ∧
    (∀ (output : ToolOutput) (code : Int) (m n : Nat), m ≤ n →
      (ToolOutput.mk code (output.tail n)).tail m = output.tail m ∧
        (output.tail m).toList <:+ (output.tail n).toList) ∧
    ∀ (lake : Workspace) (target : String) (options : BuildOptions) (p q : Progress) (run : Run)
      (result : Except PipelineError BuildResult),
      (∀ key u, p.units.get? key = some u → u.error = none) →
        Program.Reaches (Pipeline.run lake target options p) run (.done (result, q)) →
          Explained lake run q := by
  refine ⟨fun command description code out err => ?_, fun output code n => ?_,
    fun output code m n h => ?_, fun lake target options p q run result hnew h => ?_⟩
  · exact ⟨capture code out err, fun _ => Host.reaches_runTool_exited_iff,
      lines_capture code out err⟩
  · exact ⟨rfl, output.lines_tail code n⟩
  · exact ⟨output.tail_tail code h, output.tail_suffix_tail h⟩
  · exact explained_of_reaches h hnew

/-- The answers to a build whose only unit comes back with an exit code and some lines. -/
def Pipeline.buildBreaks : (q : Request) → q.Answer
  | .call (.build _ _ _) => .ok ⟨1, "1\n\n 2\r\n3\n4\n5\n6\n"⟩
  | q => success q

/-- A build whose unit has printed six lines, of which the reason keeps five. -/
theorem ToolOutput.excerpts_nest_of_buildBreaks :
    (ToolOutput.mk (-1) ((ToolOutput.mk 1 "1\n\n 2\r\n3").tail 2)).tail 1 = "3" ∧
      ∃ run result q, Program.Reaches (Pipeline.run { root := "/lake" } "." {}
          (.initial { root := "/lake" } "." "main" 0)) run (.done (result, q)) ∧
        q.units.values.map (fun u => (u.error, u.logs)) =
          [(some "exit code 1\n2\n3\n4\n5\n6", ["1\n2\n3\n4\n5\n6"])] ∧
        Explained { root := "/lake" } run q := by
  have hrun := Program.reaches_replay buildBreaks (Pipeline.run { root := "/lake" } "." {}
    (.initial { root := "/lake" } "." "main" 0))
  have hnew : ∀ key u,
      (Progress.initial { root := "/lake" } "." "main" 0).units.get? key = some u →
        u.error = none := fun _ _ hu => nomatch hu
  have hnested := (ToolOutput.excerpts_nest.2.2.1 ⟨1, "1\n\n 2\r\n3"⟩ (-1) 1 2 (by decide)).1
  exact ⟨hnested.trans (by decide), _, _, _, hrun, by decide,
    ToolOutput.excerpts_nest.2.2.2 _ _ _ _ _ _ _ hnew hrun⟩

end ProtoBuild
