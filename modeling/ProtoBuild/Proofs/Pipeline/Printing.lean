import ProtoBuild.Proofs.Console.Transcript
import ProtoBuild.Proofs.Pipeline.Completion
import ProtoBuild.Proofs.Pipeline.Phasewise

/-!
# What is printed of a build

Who watches a build on the console reads the logs of its phases line by line, and who asks for its
progress later reads the same logs as a whole.  `printed_as_logged` says that both have read the
same: of each log the console has printed exactly the lines of the progress that was shown last,
once each and in order.

Two things are needed for it.  No change of a build takes a line from a log or alters one, so the
logs that are shown are the beginnings of one another (`keeps_growing`); for this it does not
matter which progress the build begins with.  And a build shows its progress once more after its
last change, on each of its ways out (`ensures_shown_last`).
-/

namespace ProtoBuild
namespace Pipeline

open Work Progress Program

variable {run : Run} {p : Progress}

/-! ## The logs grow -/

/-- The logs that were shown are the beginnings of one another, and of the present ones. -/
structure Growing (run : Run) (p : Progress) : Prop where
  shown : Console.Growing (events run)
  behind : ∀ d ∈ (events run).filterMap Event.progress?, d.LogsGrow p

theorem growing_nil (p : Progress) : Growing [] p :=
  ⟨List.Pairwise.nil, fun _ hd => nomatch hd⟩

theorem progress?_request {q : Request} (answer : q.Answer) (h : q.Silent) :
    (events [⟨q, answer⟩]).filterMap Event.progress? = [] := by
  cases q with
  | tell e =>
    have hnone : e.progress? = none := h
    simp [events, eventOf?, hnone]
  | _ => rfl

/-- What a build is made of keeps its logs growing. -/
theorem keeps_growing : Keeps Lengthens Request.Silent Growing where
  modify f hf h := ⟨h.shown, fun d hd => (h.behind d hd).trans (hf _)⟩
  request {run p} q answer hq h := by
    have hsilent : (events (run ++ [⟨q, answer⟩])).filterMap Event.progress? =
        (events run).filterMap Event.progress? := by
      rw [events_append, List.filterMap_append, progress?_request answer hq, List.append_nil]
    refine ⟨?_, ?_⟩
    · rw [Console.Growing, hsilent]
      exact h.shown
    · rw [hsilent]
      exact h.behind
  push {run p} h := by
    have hpushed : (events (run ++ [told (.updated p)])).filterMap Event.progress? =
        (events run).filterMap Event.progress? ++ [p] := by
      rw [events_append, List.filterMap_append]
      rfl
    refine ⟨?_, fun d hd => ?_⟩
    · rw [Console.Growing, hpushed]
      refine List.pairwise_append.mpr ⟨h.shown, List.pairwise_singleton _ _, fun d hd d' hd' => ?_⟩
      rw [List.mem_singleton.mp hd']
      exact h.behind d hd
    · rw [hpushed, List.mem_append, List.mem_singleton] at hd
      rcases hd with hd | rfl
      · exact h.behind d hd
      · exact .refl d

/-! ## Printed as logged -/

/-- **The console prints the logs.**  Whatever the collaborators answer, whenever the build is asked
to stop and whatever progress it begins with: once the build has returned, the lines that a new
console has printed of the log of each phase are the lines of that log in the progress that was
shown last, each once and in order; and if the build returns a result, they are those of the
result. -/
theorem printed_as_logged (painter : Painter) (lake : Workspace) (target : String)
    (options : BuildOptions) (start : Progress) {answer : Except PipelineError BuildResult}
    (h : Reaches (Pipeline.run lake target options start) run (.done (answer, p))) :
    ∃ lines last, Console.reactAll { painter := painter } (events run) =
        lines.map (Console.Line.text painter) ∧
      lines = Console.transcript { painter := painter } (events run) ∧
      lastShown? run = some last ∧
      (∀ phase, Console.logOf phase lines = (last.phases.get phase).log) ∧
      ∀ result, answer = .ok result →
        ∀ phase, Console.logOf phase lines = (result.progress.phases.get phase).log := by
  have hgrowing := ensures_iff.mp ((made_wholeBuild lake target options).ensures keeps_growing
    (growing_nil start)) run (answer, p) h
  have hshown := ensures_iff.mp (ensures_shown_last lake target options start) run (answer, p) h
  have hresult := ensures_iff.mp (ensures_completed_last lake target options start) run
    (answer, p) h
  rw [List.nil_append] at hgrowing hshown hresult
  -- what is said of values and of errors is the same, except for the result
  have hlogs : Growing run p := by
    cases answer with
    | ok result => exact hgrowing
    | error e => exact hgrowing
  have hlast : lastShown? run = some p := by
    cases answer with
    | ok result => exact hshown
    | error e => exact hshown
  have hprinted : ∀ phase, Console.logOf phase
      (Console.transcript { painter := painter } (events run)) = (p.phases.get phase).log := by
    intro phase
    rw [(Console.inStep_of_growing painter hlogs.shown).printed phase]
    show ((lastShown? run).map _).getD [] = _
    rw [hlast]
    rfl
  refine ⟨_, p, Console.reactAll_eq _ _, rfl, hlast, hprinted, ?_⟩
  rintro result rfl phase
  obtain ⟨-, -, -, hprogress⟩ := hresult
  rw [hprogress]
  exact hprinted phase

/-- Of a build whose collaborators all succeed the console has printed how the unit was built. -/
theorem printed_as_logged_of_success :
    ∃ run result p, Reaches
        (Pipeline.run { root := "/lake" } "." {} (.initial { root := "/lake" } "." "main" 0)) run
        (.done (.ok result, p)) ∧
      Console.logOf .build (Console.transcript { painter := ⟨false⟩ } (events run)) =
        (result.progress.phases.get .build).log ∧
      (result.progress.phases.get .build).log =
        ["Building: .", "Successfully built: .", "Built 1/1 units"] := by
  have hrun := reaches_replay success
    (Pipeline.run { root := "/lake" } "." {} (.initial { root := "/lake" } "." "main" 0))
  obtain ⟨_, _, -, rfl, -, -, hresult⟩ := printed_as_logged ⟨false⟩ _ _ _ _ hrun
  exact ⟨_, _, _, hrun, hresult _ rfl .build, by decide⟩

end Pipeline
end ProtoBuild
