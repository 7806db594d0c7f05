import ProtoBuild.Proofs.Pipeline.Coherence
import ProtoBuild.Proofs.Pipeline.Completion
import ProtoBuild.Proofs.Pipeline.Watch

/-!
# A build that is asked to stop

A build is asked to stop by tripping a token that it looks at.  The token is tripped once, before
the build begins or while some collaborator is at work; the number of calls that have been made
by then, with the one under way, is all that matters, and `TrippedAt` says of a run that its
looks have found the token so.

`stops_when_tripped` says what comes of it.  Next to nothing is called any more: the units may be
searched for once the cache is cleared, and the publish phase is carried through once it has
begun (`Trailing`).  If the build returns that it was asked to stop, it says this and nothing
else, and its units are accounted for (`Stopped`).  And if the token was tripped early enough,
it does return this, with nothing built at all.

## Why a build may overlook that it was asked to stop

It returns that it was asked to stop only if it looks once more.  A build whose last unit is with
the build tool does not look again unless it publishes, and a failure in the very call in which
the token was tripped ends the build as a failure.  So only for a token that was tripped before
the build phase, in a call that does not fail, a look is sure to come.
-/

namespace ProtoBuild
namespace Pipeline

open Program

variable {run more : Run} {p : Progress} {goOn : Bool} {k : Nat}

/-! ## The token -/

/-- The token is tripped before the build begins if the number is zero, and otherwise in the call
of this number, counted from one: a look finds it tripped once that many calls were made. -/
def TrippedAt (k : Nat) (run : Run) : Prop :=
  ∀ before stopped after, run = before ++ looked stopped :: after →
    stopped = decide (k ≤ (calls before).length)

theorem TrippedAt.of_append (h : TrippedAt k (run ++ more)) : TrippedAt k run := by
  rintro before stopped after rfl
  exact h before stopped (after ++ more) (by simp)

/-- What the last look has found says whether the token is tripped. -/
theorem TrippedAt.look {stopped : Bool} (h : TrippedAt k run)
    (hlast : lastMark? run = some (.look stopped)) :
    stopped = decide (k ≤ (calls run).length) := by
  obtain ⟨before, x, after, rfl, hx, hafter⟩ := exists_of_lastMark? hlast
  obtain rfl := eq_looked_of_markOf? hx
  have hcalls : calls (before ++ looked stopped :: after) = calls before := by
    rw [calls_append, calls_looked, hafter, List.append_nil]
  rw [hcalls]
  exact h before stopped after rfl

/-- Answers with a token that is tripped in a certain call, where all collaborators succeed. -/
def tripping (k : Nat) (run : Run) : (q : Request) → q.Answer
  | .isCancelled => decide (k ≤ (calls run).length)
  | q => success q

theorem looked_inj {a b : Bool} (h : looked a = looked b) : a = b := by
  cases h
  rfl

/-- The token can be tripped in any call. -/
theorem trippedAt_replayAfter {α : Type} (k : Nat) (program : Program interface α) :
    TrippedAt k (program.replayAfter (tripping k) []).1 := by
  suffices h : ∀ past before stopped after,
      (program.replayAfter (tripping k) past).1 = before ++ looked stopped :: after →
        stopped = decide (k ≤ (calls (past ++ before)).length) from h []
  induction program with
  | done a =>
    intro past before stopped after heq
    exact absurd heq (by simp [replayAfter])
  | ask q next ih =>
    intro past before stopped after heq
    cases before with
    | nil =>
      obtain ⟨hhead, -⟩ := List.cons.inj heq
      rw [List.append_nil]
      cases q with
      | isCancelled => exact (looked_inj hhead).symm
      | _ => cases hhead
    | cons x before =>
      obtain ⟨rfl, hrest⟩ := List.cons.inj heq
      rw [List.append_cons]
      exact ih _ _ before stopped after hrest

/-! ## What follows a trip -/

/-- How the calls after a trip may follow those that were made until then, the last of which was
under way.  Either there are none; or that one cleared the cache, and the units are searched for;
or it was the query or a publish action, and all that follow are publish actions. -/
inductive Trailing : List Answered → List Answered → Prop
  | none (early : List Answered) : Trailing early []
  | discover {early : List Answered} {x y : Answered} (hx : early.getLast? = some x)
      (hclean : x.1.rank = 3) (hy : y.1.rank = 4) : Trailing early [y]
  | publish {early late : List Answered} {x : Answered} (hx : early.getLast? = some x)
      (hpublish : 6 ≤ x.1.rank) (hlate : ∀ y ∈ late, y.1.rank = 7) : Trailing early late

/-- One more call follows directly after another. -/
theorem Trailing.concat {l : List Answered} {x y : Answered}
    (h : Trailing (l.take k) (l.drop k)) (hlast : l.getLast? = some x)
    (hnext : x.1.rank = 3 ∧ y.1.rank = 4 ∨ 6 ≤ x.1.rank ∧ y.1.rank = 7) :
    Trailing ((l ++ [y]).take k) ((l ++ [y]).drop k) := by
  rcases Nat.lt_trichotomy k l.length with hlt | rfl | hgt
  · have hle : k ≤ l.length := Nat.le_of_lt hlt
    rw [List.take_append_of_le_length hle, List.drop_append_of_le_length hle]
    have hdrop : (l.drop k).getLast? = some x := by
      rw [List.getLast?_drop, if_neg (Nat.not_le_of_lt hlt), hlast]
    generalize l.take k = early at h ⊢
    generalize l.drop k = late at h hdrop ⊢
    cases h with
    | none => exact absurd hdrop (by simp)
    | discover _ _ hy =>
      rw [List.getLast?_singleton] at hdrop
      obtain rfl := Option.some.inj hdrop
      omega
    | publish hx hpublish hlate =>
      have hrun : x.1.rank = 7 := hlate x (List.mem_of_getLast? hdrop)
      refine .publish hx hpublish fun z hz => ?_
      rcases List.mem_append.mp hz with hz | hz
      · exact hlate z hz
      · rw [List.mem_singleton.mp hz]
        omega
  · rw [List.take_left, List.drop_left]
    rcases hnext with ⟨hclean, hy⟩ | ⟨hpublish, hy⟩
    · exact .discover hlast hclean hy
    · exact .publish hlast hpublish fun z hz => List.mem_singleton.mp hz ▸ hy
  · have hlong : (l ++ [y]).length ≤ k := by
      rw [List.length_append, List.length_singleton]
      omega
    rw [List.drop_eq_nil_of_le hlong]
    exact .none _

/-- A call that stands where it may follows the trip as it may. -/
theorem Trailing.call {c : Call} (h : Trailing ((calls run).take k) ((calls run).drop k))
    (htrip : TrippedAt k run) (hc : MayFollow c (lastMark? run)) (answer : c.Answer) :
    Trailing ((calls (run ++ [called c answer])).take k)
      ((calls (run ++ [called c answer])).drop k) := by
  rw [calls_append, calls_called, calls_nil]
  cases hlast : lastMark? run with
  | none =>
    rw [hlast] at hc
    exact hc.elim
  | some m =>
    rw [hlast] at hc
    cases m with
    | look stopped =>
      -- the look has found nothing, so the token is tripped in this call at the earliest
      obtain rfl : stopped = false := hc
      have hbefore : ¬ k ≤ (calls run).length := of_decide_eq_false (htrip.look hlast).symm
      have hlong : List.length (calls run ++ [⟨c, answer⟩]) ≤ k := by
        rw [List.length_append, List.length_singleton]
        omega
      rw [List.drop_eq_nil_of_le hlong]
      exact .none _
    | call x =>
      obtain ⟨answer', hx⟩ := getLast?_calls hlast
      exact h.concat hx hc
    | fault text => exact hc.elim

/-- **A guarded run heeds the token.** -/
theorem Guarded.trailing (h : Guarded run) (htrip : TrippedAt k run) :
    Trailing ((calls run).take k) ((calls run).drop k) := by
  induction run using List.reverseRecOn with
  | nil =>
    rw [calls_nil, List.take_nil, List.drop_nil]
    exact .none _
  | append_singleton run x ih =>
    obtain ⟨hrun, hx⟩ := guarded_append_iff.mp h
    have hbefore := ih hrun htrip.of_append
    cases hcall : callOf? x with
    | some y =>
      obtain ⟨q, answer⟩ := x
      cases q with
      | call c => exact hbefore.call htrip.of_append hx.1 answer
      | _ => exact nomatch hcall
    | none =>
      have hcalls : calls (run ++ [x]) = calls run := by
        rw [calls_append, calls, calls, List.filterMap_cons, hcall]
        exact List.append_nil _
      rw [hcalls]
      exact hbefore

/-! ## How a build returns -/

/-- The token is tripped before the build begins, or in a call that is made before the build phase
and does not fail. -/
inductive TripsEarly (goOn : Bool) (l : List Answered) : Nat → Prop
  | start : TripsEarly goOn l 0
  | call {i : Nat} {x : Answered} (hx : l[i]? = some x) (hrank : x.1.rank < 3)
      (hok : x.fails goOn = false) : TripsEarly goOn l (i + 1)

/-- What a build leaves that returns that it was asked to stop: it was, the progress that was shown
last stands in the stage of such a build, no other end was told, and each unit that was not given
to the build tool is skipped. -/
structure Stopped (k : Nat) (run : Run) (p : Progress) : Prop where
  tripped : k ≤ (calls run).length
  shown : lastShown? run = some p
  stage_eq : p.stage = .cancelled
  not_completed : ∀ result, Event.completed result ∉ events run
  not_failed : ∀ text, Event.failed text ∉ events run
  accounted : Accounted run p

/-- Nothing is called any more if the token is tripped early. -/
theorem Trailing.drop_eq_nil {l : List Answered} (h : Trailing (l.take k) (l.drop k))
    (hearly : TripsEarly goOn l k) : l.drop k = [] := by
  have hlast : ∀ x, (l.take k).getLast? = some x → x.1.rank < 3 := by
    intro x hx
    cases hearly with
    | start => exact nomatch hx
    | call hx' hrank =>
      rw [List.getLast?_take, if_neg (Nat.succ_ne_zero _), Nat.add_sub_cancel, hx',
        Option.some_or] at hx
      exact Option.some.inj hx ▸ hrank
  generalize l.take k = early at h hlast
  generalize l.drop k = late at h ⊢
  cases h with
  | none => rfl
  | discover hx hclean =>
    have hrank := hlast _ hx
    omega
  | publish hx hpublish =>
    have hrank := hlast _ hx
    omega

/-- Past the look before the build phase it is too late for an early trip. -/
theorem Past.not_early (h : Past run) (htrip : TrippedAt k run) :
    ¬ TripsEarly goOn (calls run) k := by
  obtain ⟨before, after, rfl, hafter⟩ := h
  have hlate : ¬ k ≤ (calls before).length :=
    of_decide_eq_false (htrip before false after rfl).symm
  intro hearly
  cases hearly with
  | start => exact hlate (Nat.zero_le _)
  | @call i x hx hrank =>
    rw [calls_append, calls_looked, List.getElem?_append_right (by omega)] at hx
    have hlow := hafter x (List.mem_of_getElem? hx)
    omega

/-- The last call has failed, so the token was not tripped early. -/
theorem Guarded.not_early_of_failed {x : Answered} (h : Guarded run) (htrip : TrippedAt k run)
    (hlast : (calls run).getLast? = some x) (hx : x.fails goOn = true) :
    ¬ TripsEarly goOn (calls run) k := by
  intro hearly
  have hlength : (calls run).length ≤ k := 
    List.drop_eq_nil_iff.mp ((h.trailing htrip).drop_eq_nil hearly)
  rw [List.getLast?_eq_getElem?] at hlast
  cases hearly with
  | start =>
    rw [List.length_eq_zero_iff.mp (Nat.le_zero.mp hlength)] at hlast
    exact nomatch hlast
  | @call i y hy hrank hok =>
    have hi : (calls run).length - 1 = i := by
      have hlt := (List.getElem?_eq_some_iff.mp hy).1
      omega
    rw [hi, hy] at hlast
    rw [Option.some.inj hlast, hx] at hok
    exact nomatch hok

section

variable {lake : Workspace} {target : String} {options : BuildOptions}

/-- As far as a build has come, its calls stand where they may. -/
theorem guarded_of_reaches {rest : Program interface (Except PipelineError BuildResult × Progress)}
    (hunits : p.units = ∅) (hbuild : (p.phases.get .build).state = .notStarted)
    (h : Reaches (Pipeline.run lake target options p) run rest) : Guarded run := by
  obtain ⟨more, ⟨answer, q⟩, hall, -⟩ := h.exists_complete success
  have hend := ensures_iff.mp
    (ensures_wholeBuild_watched false lake target options hunits hbuild) _ _ hall
  rw [List.nil_append] at hend
  cases answer with
  | ok result => exact (guarded_append_iff.mp hend.1).1
  | error e => exact (guarded_append_iff.mp hend.guarded).1

/-- A build that returns that it was asked to stop leaves nothing else behind. -/
theorem stopped_of_reaches {q : Progress} (hp : p.Between Phase.codegen.index)
    (hunits : p.units = ∅) (htrip : TrippedAt k run)
    (h : Reaches (Pipeline.run lake target options p) run (.done (.error .cancelled, q))) :
    Stopped k run q := by
  have hleft := ensures_iff.mp (ensures_wholeBuild_watched false lake target options
    hunits (hp.through.waiting .build (Nat.zero_le _))) _ _ h
  have hplain := ensures_iff.mp (ensures_completed_last lake target options p) _ _ h
  rw [List.nil_append] at hleft hplain
  obtain ⟨hat, haccounted⟩ := hleft.stopped rfl
  have hended : Ended _ False .cancelled run q := ended_of_reaches False.elim hp h
  exact
    { tripped := of_decide_eq_true (htrip.look hat.last).symm
      shown := hended.shown
      stage_eq := hended.stage_eq
      not_completed := hplain
      not_failed := hat.not_failed
      accounted := haccounted }

/-- A build whose token is tripped early returns that it was asked to stop, and has built
nothing. -/
theorem unbuilt_of_reaches {answer : Except PipelineError BuildResult} {q : Progress}
    (hunits : p.units = ∅) (hbuild : (p.phases.get .build).state = .notStarted)
    (htrip : TrippedAt k run) (hearly : TripsEarly goOn (calls run) k)
    (h : Reaches (Pipeline.run lake target options p) run (.done (answer, q))) :
    answer = .error .cancelled ∧ Unbuilt run q := by
  have hend := ensures_iff.mp
    (ensures_wholeBuild_watched goOn lake target options hunits hbuild) _ _ h
  rw [List.nil_append] at hend
  cases answer with
  | ok result => exact absurd hearly (hend.2.not_early htrip)
  | error e =>
    rcases hend.past_or_halted with hpast | hhalted
    · exact absurd hearly (hpast.not_early htrip)
    · cases hhalted with
      | stopped _ hp => exact ⟨rfl, hp⟩
      | failed hguarded _ hlast hx =>
        exact absurd hearly (hguarded.not_early_of_failed htrip hlast hx)

end

/-- **A build stops when it is asked to.**  A build that has just been asked for runs while its
token is tripped in some call or before the first.  As far as it has come, it has made no call
after the trip but the search for units once the cache is cleared, or the rest of the publish
actions.  If it returns that it was asked to stop, the token was tripped, it is shown as
cancelled and not said to have ended otherwise, and each of its units was given to the build tool
or is skipped.  If the token was tripped before the beginning, or in a call that prepares,
generates or checks and does not fail, it does return this, without units and without having
begun its build phase. -/
theorem stops_when_tripped (lake : Workspace) (target : String) (options : BuildOptions)
    (recorded : Option Workspace) (requested branch : String) (time : UInt64) (goOn : Bool)
    (k : Nat) {rest : Program interface (Except PipelineError BuildResult × Progress)}
    (h : Reaches
      (Pipeline.run lake target options
        { target := requested, branch := branch, startTime := time, lake := recorded })
      run rest)
    (htrip : TrippedAt k run) :
    Trailing ((calls run).take k) ((calls run).drop k) ∧
      ∀ answer p, rest = .done (answer, p) →
        (answer = .error .cancelled → Stopped k run p) ∧
        (TripsEarly goOn (calls run) k →
          answer = .error .cancelled ∧ p.units = ∅ ∧
            (p.phases.get .build).state = .notStarted) := by
  have hguarded : Guarded run := guarded_of_reaches rfl rfl h
  refine ⟨hguarded.trailing htrip, ?_⟩
  rintro answer p rfl
  refine ⟨?_, fun hearly => ?_⟩
  · rintro rfl
    have hbetween := Progress.between_initial lake requested branch time
    refine stopped_of_reaches ?_ rfl htrip h
    exact ⟨⟨hbetween.through.ended, hbetween.through.waiting⟩, rfl, hbetween.idle⟩
  · obtain ⟨hanswer, hp⟩ := unbuilt_of_reaches rfl rfl htrip hearly h
    exact ⟨hanswer, hp.units_eq, hp.build_eq⟩

/-- A build whose token is tripped while the build files are generated: it has prepared the lake
and generated the files, returns that it was asked to stop, and has built nothing. -/
theorem stops_when_tripped_in_codegen :
    ∃ run p, Reaches
        (Pipeline.run { root := "/lake" } "." {}
          { target := ".", branch := "main", startTime := 0, lake := none }) run
        (.done (.error .cancelled, p)) ∧
      TrippedAt 2 run ∧ (calls run).map (fun x => x.1.rank) = [0, 1] ∧ p.units = ∅ ∧
      lastShown? run = some p ∧ p.stage = .cancelled := by
  have hrun := reaches_replayAfter (tripping 2) []
    (Pipeline.run { root := "/lake" } "." {}
      { target := ".", branch := "main", startTime := 0, lake := none })
  have htrip := trippedAt_replayAfter 2
    (Pipeline.run { root := "/lake" } "." {}
      { target := ".", branch := "main", startTime := 0, lake := none })
  obtain ⟨-, hreturned⟩ := stops_when_tripped _ _ _ _ _ _ _ false 2 hrun htrip
  obtain ⟨hstopped, hearly⟩ := hreturned _ _ rfl
  obtain ⟨hanswer, hunits, -⟩ := hearly (.call rfl (by decide) rfl)
  have hend := hstopped hanswer
  refine ⟨_, _, ?_, htrip, rfl, hunits, hend.shown, hend.stage_eq⟩
  rw [← hanswer]
  exact hrun

end Pipeline
end ProtoBuild
