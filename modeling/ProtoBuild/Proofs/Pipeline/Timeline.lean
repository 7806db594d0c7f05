import ProtoBuild.Proofs.Pipeline.Clocked
import ProtoBuild.Proofs.Resolution.Order

/-!
# The times of a build

The durations that a reader sees are differences of times that were recorded at many places: on
entering a phase and at its end, before and after a unit was with the build tool, and once more for
the result.  They make sense only if these times follow one another as the work did.

`timeline_of_distinct` says so of every build that begins with a new progress: its times are
ordered, if the clock never goes back.  The phases that were entered have both of their times, so
do the units that were attempted, and from the publish phase on no time of a unit changes.  That
the times are ordered follows from the clock at once, since they were recorded as they were read
(`Clocked`).

## Why the units have to be different

A unit that is named twice is given to the build tool twice, and keeps the times of the first
attempt.  Then the times of its second attempt are recorded nowhere, and the intervals of the units
do not follow one another any more.  So what is known is known only as long as no search has found
a unit twice (`Known`).
-/

namespace ProtoBuild

namespace Pipeline

open Work Progress

variable {run more : Run} {p p' start : Progress} {attempted : List String} {k : Nat}

/-! ## Phase by phase -/

/-- What is known if no search has found a unit twice. -/
def Known (C : List String → Assertion) : Assertion := fun run p =>
  Distinct run → ∃ attempted, C attempted run p

theorem Known.map {C C' : List String → Assertion} (h : Known C run p)
    (hmap : ∀ attempted, C attempted run p → C' attempted (run ++ more) p') :
    Known C' (run ++ more) p' :=
  fun hdistinct => (h hdistinct.of_append).imp hmap

/-- A build has ended, and all of its times are recorded. -/
def Chronicled (attempted : List String) (read : List UInt64) (run : Run) (p : Progress) : Prop :=
  ∃ k, ClockedThrough attempted k run p ∧
    (p.timesUpTo attempted k ++ read).Sublist (times run)

/-- A build that has come through some phases ends, and only shows its progress once more. -/
theorem ClockedThrough.chronicled (h : ClockedThrough attempted k run p) (stage : Stage)
    (hbuilds : builds more = []) (hshown : ∀ s ∈ shown more, s = (p.advance stage).1) :
    Chronicled attempted [] (run ++ more) (p.advance stage).1 := by
  have hended := (h.advance stage).silent hbuilds hshown
  exact ⟨k, hended, by rw [List.append_nil]; exact hended.sublist⟩

/-- Only one collaborator is given patterns. -/
theorem builds_request {i j : Nat} (hrank : j < 5 ∨ 5 < i) {request : Request}
    (h : request.Within i j) (answer : request.Answer) : builds [⟨request, answer⟩] = [] := by
  cases request with
  | call c =>
    obtain ⟨hi, hj⟩ := h
    cases c with
    | build root args pattern =>
      have hfive : (Call.build root args pattern).rank = 5 := rfl
      omega
    | _ => rfl
  | now => rfl
  | isCancelled => exact h.elim
  | tell e => exact h.elim

theorem phasewise_known :
    Phasewise (fun k => Known fun attempted => Resting attempted k)
      (fun q => Known fun attempted => Busy attempted q)
      (fun q => Known fun attempted => Resting attempted (q.index + 1))
      (fun _ => Known fun attempted => Chronicled attempted []) where
  look h := h.map fun _ h => h.silent rfl fun _ hs => nomatch hs
  prepared _ h := h.map fun _ h => h.silent rfl fun _ hs => nomatch hs
  unprepared _ _ h := by
    refine h.map fun _ h => h.toClockedThrough.chronicled .failed rfl fun _ hs => ?_
    exact List.mem_singleton.mp hs
  stop {run p k} h := by
    have hlooked : Known (fun attempted => Resting attempted k) (run ++ [looked true]) p :=
      h.map fun _ h => h.silent rfl fun _ hs => nomatch hs
    refine hlooked.map fun _ h => h.toClockedThrough.chronicled .cancelled rfl fun _ hs => ?_
    exact List.mem_singleton.mp hs
  enter time h := h.map fun _ h => h.enter time
  keeps {q i j} hrank :=
    { modify := fun f hf h hdistinct => (h hdistinct).imp fun _ h => h.working hf
      request := fun request answer hrequest h => h.map fun _ h =>
        h.silent (builds_request hrank hrequest answer) fun _ hs => by
          rw [shown_request answer (hrequest.from (Nat.zero_le i))] at hs
          exact nomatch hs
      push := fun h => h.map fun _ h => h.silent rfl fun _ hs => List.mem_singleton.mp hs }
  close time hf h := h.map fun _ h => h.close hf
  leave h := h.map fun _ h => h.silent rfl fun _ hs => List.mem_singleton.mp hs
  abort {run p q e} _ h := by
    intro time
    have hclosed := h.map fun _ h => h.close fun r => r.ends_fail time e.message
    rw [List.append_cons]
    refine hclosed.map fun _ h => h.toClockedThrough.chronicled .failed rfl fun _ hs => ?_
    exact List.mem_singleton.mp hs

theorem unitwise_known :
    Unitwise (fun q => Known fun attempted => Busy attempted q)
      (fun q => Known fun attempted => Resting attempted (q.index + 1))
      (fun _ => Known fun attempted => Chronicled attempted [])
      (fun rest => Known fun attempted => Building attempted rest) where
  begin {run p units} version h hunits hdistinct := by
    obtain ⟨attempted, h⟩ := h hdistinct.of_append
    exact ⟨[], h.begin (hunits hdistinct.of_append) version⟩
  look h := h.map fun _ h => h.silent rfl fun _ hs => nomatch hs
  attempt {run p unit rest} lake args h := by
    by_cases hdistinct : Distinct run
    · obtain ⟨attempted, h⟩ := h hdistinct
      exact (h.ensures_buildUnit lake args).mono (fun _ _ _ h _ => ⟨_, h⟩) fun _ _ _ h => h
    · have hmade := ((made_buildUnit lake args unit).growing (Nat.le_refl 5)).free
      exact (hmade.ensures keeps_not_distinct hdistinct).mono
        (fun _ _ _ hnot hlater => absurd hlater hnot) fun _ _ _ _ => trivial
  keeps units :=
    { modify := fun f hf h hdistinct => (h hdistinct).imp fun _ h => h.annotate hf
      request := fun _ _ hrequest _ => hrequest.elim
      push := fun h => h.map fun _ h => h.silent rfl fun _ hs => List.mem_singleton.mp hs }
  stop {run p units} time h := by
    have hskipped := h.map fun _ h => h.skip units time
    refine hskipped.map fun _ h => h.chronicled .cancelled rfl fun _ hs => ?_
    exact List.mem_singleton.mp hs
  fail {run p units e} time he h := by
    intro time'
    rw [abortedIn_failing]
    have hfailed : Known (fun attempted => ClockedThrough attempted (Phase.build.index + 1))
        (run ++ [timed time, told (.updated (p.failing time e))]) (p.failing time e) :=
      h.map fun _ h => h.close (fun r => r.ends_fail time e.message) rfl
        (fun _ hs => List.mem_singleton.mp hs) rfl
    refine hfailed.map fun _ h => h.chronicled .failed rfl fun _ hs => ?_
    exact List.mem_singleton.mp hs
  close {run p f} time hf h := by
    refine h.map fun attempted h => ⟨h.close hf rfl (fun _ hs => nomatch hs) rfl, ?_⟩
    have hcovered := h.covered
    rw [List.append_nil] at hcovered
    exact hcovered

/-! ## The whole build -/

open Program

theorem resting_initial (recorded : Workspace) (requested branch : String) (begun : UInt64)
    (lake : Option Workspace) :
    Resting [] 0 [] { Progress.initial recorded requested branch begun with lake := lake } where
  wellTimed :=
    ⟨(wellTimed_initial recorded requested branch begun).phases, fun _ _ hu => nomatch hu⟩
  settled := settled_of_waiting rfl
  shown_settled _ hs := nomatch hs
  builds_eq := rfl
  nodup := List.nodup_nil
  measured _ hunit := nomatch hunit
  sublist := List.Sublist.refl _
  through := ⟨fun _ hq => absurd hq (Nat.not_lt_zero _), fun q _ => by cases q <;> rfl⟩
  early _ := rfl
  covered _ _ := rfl

/-- The time of the completion is read and recorded last. -/
theorem Resting.finish (h : Resting attempted k run p) (time : UInt64) :
    Chronicled attempted [time]
      (run ++ [told (.updated (p.advance .completed).1), timed time,
        told (.completed ((p.advance .completed).1.result time))])
      (p.advance .completed).1 := by
  have hended := h.toClockedThrough.advance .completed
  refine ⟨k, hended.silent rfl fun s hs => ?_, ?_⟩
  · rcases List.mem_cons.mp hs with rfl | hs
    · rfl
    · exact List.mem_singleton.mp hs
  · rw [times_append]
    exact hended.sublist.append (List.Sublist.refl _)

theorem ensures_chronicled (lake : Workspace) (target : String) (options : BuildOptions)
    (recorded : Workspace) (requested branch : String) (begun : UInt64) :
    Ensures (wholeBuild lake target options)
      (fun result => Known fun attempted run p =>
        Chronicled attempted [result.completionTime] run p ∧ result.progress = p)
      (fun _ => Known fun attempted => Chronicled attempted []) []
      (.initial recorded requested branch begun) := by
  refine phasewise_known.wholeBuild lake target options (fun place run p hp => ?_)
    (fun run p time hp => ?_) ?_
  · exact phasewise_known.build unitwise_known lake place (options.onLake lake) hp
  · exact hp.map fun _ h => ⟨h.finish time, rfl⟩
  · exact fun _ => ⟨[], resting_initial recorded requested branch begun _⟩

/-- The time of the completion, if there is a result. -/
def completion : Except PipelineError BuildResult → List UInt64
  | .ok result => [result.completionTime]
  | .error _ => []

/-- What is known of the times of a build that has ended, and of the units that were attempted in
it. -/
structure Timeline (begun : UInt64) (answer : Except PipelineError BuildResult)
    (attempted : List String) (run : Run) (p : Progress) : Prop where
  startTime_eq : p.startTime = begun
  returned : ∀ result, answer = .ok result → result.progress = p
  builds_eq : builds run = attempted.map Path.pattern
  nodup : attempted.Nodup
  /-- The phases that were entered have both of their times. -/
  phases_timed : ∀ q, (p.phases.get q).state ≠ .notStarted →
    (p.phases.get q).startTime.isSome = true ∧ (p.phases.get q).endTime.isSome = true
  /-- The units that were attempted have both of their times, read directly before and after they
  were with the build tool. -/
  units_timed : AllMeasured attempted run p
  /-- All times follow one another, up to that of the completion. -/
  ordered : (p.timeline attempted ++ completion answer).Pairwise (· ≤ ·)
  /-- From the start of the publish phase on all units have both of their times. -/
  settled : ∀ s ∈ shown run, s.Settled
  /-- What was shown of the times of a unit stays so. -/
  kept : (shown run).Pairwise KeepsTimes

/-- What was recorded as it was read is ordered if the clock does not go back. -/
theorem Chronicled.timeline {begun : UInt64} {answer : Except PipelineError BuildResult}
    (h : Chronicled attempted (completion answer) run p)
    (hforward : Forward start run p) (hstart : start.startTime = begun)
    (hreturned : ∀ result, answer = .ok result → result.progress = p)
    (hclock : (begun :: times run).Pairwise (· ≤ ·)) : Timeline begun answer attempted run p := by
  obtain ⟨k, hclocked, hsublist⟩ := h
  have hbegun : p.startTime = begun :=
    (hforward.behind start List.mem_cons_self).startTime_eq.trans hstart
  refine
    { startTime_eq := hbegun
      returned := hreturned
      builds_eq := hclocked.builds_eq
      nodup := hclocked.nodup
      phases_timed := fun q hq => ?_
      units_timed := hclocked.measured
      ordered := ?_
      settled := hclocked.shown_settled
      kept := hforward.pairwise.of_cons.imp fun hto => hto.keepsTimes }
  · have hwell := hclocked.wellTimed.phases q
    refine ⟨hwell.has_start hq, hwell.has_end (hclocked.through.ended q ?_)⟩
    by_contra hk
    exact hq (hclocked.through.waiting q (Nat.le_of_not_lt hk))
  · rw [timeline_eq hclocked.wellTimed hclocked.through hclocked.early, hbegun, List.cons_append]
    exact hclock.sublist (hsublist.cons_cons begun)

/-- **The times of a build.**  If the clock never goes back and no search has found a unit twice,
the times that a build records are ordered as the work was: the request, the phases one after
another with the attempted units in the build phase, and the completion.  Whatever was entered or
attempted has both of its times when the build returns, and publishing changes no time of a unit. -/
theorem timeline_of_distinct (lake : Workspace) (target : String) (options : BuildOptions)
    (recorded : Workspace) (requested branch : String) (begun : UInt64)
    {answer : Except PipelineError BuildResult}
    (h : Reaches (Pipeline.run lake target options (.initial recorded requested branch begun)) run
      (.done (answer, p)))
    (hdistinct : Distinct run) (hclock : (begun :: times run).Pairwise (· ≤ ·)) :
    ∃ attempted, Timeline begun answer attempted run p := by
  have hforward := ensures_iff.mp
    (ensures_forward lake target options recorded requested branch begun) run (answer, p) h
  have htimes := ensures_iff.mp
    (ensures_chronicled lake target options recorded requested branch begun) run (answer, p) h
  rw [List.nil_append] at hforward htimes
  cases answer with
  | ok result =>
    obtain ⟨attempted, hchronicled, hreturned⟩ := htimes hdistinct
    refine ⟨attempted, hchronicled.timeline hforward rfl (fun _ heq => ?_) hclock⟩
    obtain rfl := Except.ok.inj heq
    exact hreturned
  | error e =>
    obtain ⟨attempted, hchronicled⟩ := htimes hdistinct
    exact ⟨attempted, hchronicled.timeline hforward rfl (fun _ heq => nomatch heq) hclock⟩

/-- Answers to a build that finds two units, one of them in the other, and publishes both.  The
clock counts what was asked. -/
def publishesTwo (past : Run) : (q : Request) → q.Answer
  | .now => UInt64.ofNat past.length
  | .call (.discover _ _) => .ok ["a", "a/b"]
  | .call (.query _ _) => .ok ["//a:a_publish", "//a/b:b_publish"]
  | q => success q

/-- A build of every unit of a lake, each on its own, that publishes them. -/
def publishedLake : Program interface (Except PipelineError BuildResult × Progress) :=
  Pipeline.run { root := "/lake" } "." { isolate := true, installLocal := true }
    (.initial { root := "/lake" } "." "main" 0)

theorem replayAfter_publishesTwo :
    (publishedLake.replayAfter publishesTwo []).2.2.statuses = [.published, .published] ∧
      builds (publishedLake.replayAfter publishesTwo []).1 = ["//a/b/...", "//a/..."] ∧
      (0 :: times (publishedLake.replayAfter publishesTwo []).1).Pairwise (· < ·) := by
  unfold publishedLake Pipeline.run wholeBuild buildTarget build resolveUnits
  rw [Resolution.deepestFirst_eq_insertionSort]
  decide +kernel

/-- Such a build has built the two units one after the other and published them, and no two of its
times are the same. -/
theorem timeline_of_publishes :
    ∃ run answer p, Reaches publishedLake run (.done (answer, p)) ∧
      p.statuses = [.published, .published] ∧ builds run = ["//a/b/...", "//a/..."] ∧
      (0 :: times run).Pairwise (· < ·) ∧ ∃ attempted, Timeline 0 answer attempted run p := by
  obtain ⟨hstatuses, hbuilds, hclock⟩ := replayAfter_publishesTwo
  have hrun := reaches_replayAfter publishesTwo [] publishedLake
  have hdistinct := distinct_replayAfter publishesTwo (fun past root search units h => by
    obtain rfl := Except.ok.inj h
    decide) [] publishedLake
  exact ⟨_, _, _, hrun, hstatuses, hbuilds, hclock,
    timeline_of_distinct _ _ _ _ _ _ _ hrun hdistinct (hclock.imp UInt64.le_of_lt)⟩

end Pipeline
end ProtoBuild
