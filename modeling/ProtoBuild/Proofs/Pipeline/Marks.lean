import Mathlib.Data.List.Induction
import ProtoBuild.Proofs.Pipeline.Order

/-!
# A build looks before it calls

Nobody can stop a build from outside.  It looks by itself whether it was asked to stop, and how
soon it stops depends on where it looks.  `Guarded` says of a run that almost every call comes
directly after a look that has found nothing; the exceptions are the units that are searched for
once the cache is cleared, and the publish actions, which follow the query and one another.

What a call may follow is a matter of the last mark before it (`MayFollow`): a mark is a call, a
look, or a failure that was told.  The failures are there because they come last, so a build that
goes on to look has not told of one.
-/

namespace ProtoBuild
namespace Pipeline

variable {run more : Run}

/-! ## Where a call may stand -/

/-- What the place of a call depends on. -/
inductive Mark where
  | call (c : Call)
  | look (stopped : Bool)
  | fault (text : String)

/-- The mark that an exchange leaves. -/
def markOf? : Exchange interface → Option Mark
  | ⟨.call c, _⟩ => some (.call c)
  | ⟨.isCancelled, stopped⟩ => some (.look stopped)
  | ⟨.tell (.failed text), _⟩ => some (.fault text)
  | _ => none

theorem eq_called_of_markOf? {x : Exchange interface} {c : Call} (h : markOf? x = some (.call c)) :
    ∃ answer, x = called c answer := by
  obtain ⟨q, answer⟩ := x
  cases q with
  | call c' =>
    cases h
    exact ⟨answer, rfl⟩
  | now => exact nomatch h
  | isCancelled => exact nomatch h
  | tell e => cases e <;> exact nomatch h

theorem eq_looked_of_markOf? {x : Exchange interface} {stopped : Bool}
    (h : markOf? x = some (.look stopped)) : x = looked stopped := by
  obtain ⟨q, answer⟩ := x
  cases q with
  | isCancelled =>
    cases h
    rfl
  | call c => exact nomatch h
  | now => exact nomatch h
  | tell e => cases e <;> exact nomatch h

/-- The last mark of a run. -/
def lastMark? (run : Run) : Option Mark := (run.filterMap markOf?).getLast?

/-- A call comes after a look that has found nothing.  Units may also be searched for once the
cache is cleared, and a publish action may follow the query or another action. -/
def MayFollow (c : Call) : Option Mark → Prop
  | some (.look stopped) => stopped = false
  | some (.call x) => x.rank = 3 ∧ c.rank = 4 ∨ 6 ≤ x.rank ∧ c.rank = 7
  | _ => False

/-- After a failure that was told there is nothing more. -/
def Mark.Follows : Mark → Option Mark → Prop
  | call c, last => MayFollow c last
  | look _, last | fault _, last => ∀ text, last ≠ some (fault text)

/-- After some mark, each exchange of a run stands where it may. -/
def GuardedAfter : Option Mark → Run → Prop
  | _, [] => True
  | last, x :: rest =>
    match markOf? x with
    | none => GuardedAfter last rest
    | some m => m.Follows last ∧ GuardedAfter (some m) rest

/-- Each call of a run stands where it may. -/
def Guarded (run : Run) : Prop := GuardedAfter none run

theorem lastMark?_append : lastMark? (run ++ more) = (lastMark? more).or (lastMark? run) := by
  rw [lastMark?, List.filterMap_append, List.getLast?_append, lastMark?, lastMark?]

theorem lastMark?_concat (x : Exchange interface) :
    lastMark? (run ++ [x]) = (markOf? x).or (lastMark? run) := by
  rw [lastMark?_append]
  cases hx : markOf? x <;> simp [lastMark?, hx]

theorem guardedAfter_append {last : Option Mark} :
    GuardedAfter last (run ++ more) ↔
      GuardedAfter last run ∧ GuardedAfter ((lastMark? run).or last) more := by
  induction run generalizing last with
  | nil => exact ⟨fun h => ⟨trivial, h⟩, And.right⟩
  | cons x rest ih =>
    rw [List.cons_append, GuardedAfter, GuardedAfter]
    have hcons : lastMark? (x :: rest) = (lastMark? rest).or (markOf? x) := by
      rw [← List.singleton_append, lastMark?_append]
      cases hx : markOf? x <;> simp [lastMark?, hx]
    cases hx : markOf? x with
    | none =>
      rw [hcons, hx, Option.or_none]
      exact ih
    | some m =>
      rw [hcons, hx, and_assoc, Option.or_assoc]
      exact and_congr_right fun _ => ih

theorem guarded_append_iff :
    Guarded (run ++ more) ↔ Guarded run ∧ GuardedAfter (lastMark? run) more := by
  rw [Guarded, guardedAfter_append, Option.or_none]
  exact Iff.rfl

/-- What leaves no mark stands anywhere. -/
theorem guardedAfter_of_silent {last : Option Mark} (h : lastMark? more = none) :
    GuardedAfter last more := by
  induction more with
  | nil => trivial
  | cons x rest ih =>
    rw [lastMark?, List.getLast?_eq_none_iff, List.filterMap_cons] at h
    rw [GuardedAfter]
    cases hx : markOf? x with
    | none =>
      rw [hx] at h
      exact ih (List.getLast?_eq_none_iff.mpr h)
    | some m =>
      rw [hx] at h
      exact absurd h (List.cons_ne_nil _ _)

/-- A call is a mark. -/
theorem calls_eq_nil_of_silent (h : lastMark? more = none) : calls more = [] := by
  rw [lastMark?, List.getLast?_eq_none_iff, List.filterMap_eq_nil_iff] at h
  refine List.filterMap_eq_nil_iff.mpr fun x hx => ?_
  obtain ⟨q, answer⟩ := x
  cases q with
  | call c => exact nomatch h _ hx
  | _ => rfl

/-- The last mark is left at some place in the run, and none after it. -/
theorem exists_of_lastMark? {m : Mark} (h : lastMark? run = some m) :
    ∃ before x after, run = before ++ x :: after ∧ markOf? x = some m ∧ calls after = [] := by
  induction run using List.reverseRecOn with
  | nil => exact nomatch h
  | append_singleton run y ih =>
    rw [lastMark?_concat] at h
    cases hy : markOf? y with
    | some m' =>
      rw [hy, Option.some_or] at h
      exact ⟨run, y, [], rfl, hy.trans h, rfl⟩
    | none =>
      rw [hy, Option.none_or] at h
      obtain ⟨before, x, after, rfl, hx, hafter⟩ := ih h
      refine ⟨before, x, after ++ [y], by simp, hx, ?_⟩
      rw [calls_append, hafter, List.nil_append]
      exact calls_eq_nil_of_silent (by rw [lastMark?, List.filterMap_cons, hy]; rfl)

/-- If the last mark is a call, it is the last call. -/
theorem getLast?_calls {c : Call} (h : lastMark? run = some (.call c)) :
    ∃ answer, (calls run).getLast? = some ⟨c, answer⟩ := by
  obtain ⟨before, x, after, rfl, hx, hafter⟩ := exists_of_lastMark? h
  obtain ⟨answer, rfl⟩ := eq_called_of_markOf? hx
  refine ⟨answer, ?_⟩
  rw [calls_append, calls_called, hafter, List.getLast?_concat]

/-- A guarded run with a certain mark as the last one. -/
structure Run.At (m : Mark) (run : Run) : Prop where
  guarded : Guarded run
  last : lastMark? run = some m

/-- A guarded run that has not been ended by a failure. -/
structure Run.Unbroken (run : Run) : Prop where
  guarded : Guarded run
  last : ∀ text, lastMark? run ≠ some (.fault text)

theorem Run.unbroken_nil : Run.Unbroken [] := ⟨trivial, fun _ h => nomatch h⟩

namespace Run.At

variable {m : Mark}

/-- A mark is left where it may be, and then no other. -/
theorem mark {x : Exchange interface} (h : Guarded run) (hx : markOf? x = some m)
    (hm : m.Follows (lastMark? run)) (hmore : lastMark? more = none) :
    Run.At m (run ++ x :: more) where
  guarded := by
    refine guarded_append_iff.mpr ⟨h, ?_⟩
    rw [GuardedAfter, hx]
    exact ⟨hm, guardedAfter_of_silent hmore⟩
  last := by
    have hcons : lastMark? (x :: more) = some m := by
      rw [← List.singleton_append, lastMark?_append, hmore]
      simp [lastMark?, hx]
    rw [lastMark?_append, hcons, Option.some_or]

theorem silent (h : run.At m) (hmore : lastMark? more = none) : (run ++ more).At m where
  guarded := guarded_append_iff.mpr ⟨h.guarded, guardedAfter_of_silent hmore⟩
  last := by rw [lastMark?_append, hmore, Option.none_or, h.last]

theorem unbroken (h : run.At m) (hm : ∀ text, m ≠ .fault text) : run.Unbroken where
  guarded := h.guarded
  last text heq := hm text (Option.some.inj (h.last.symm.trans heq))

end Run.At

/-- After a look that has found nothing any call may be made. -/
theorem Run.At.call (h : run.At (.look false)) (c : Call) (answer : c.Answer)
    (hmore : lastMark? more = none) : Run.At (.call c) (run ++ called c answer :: more) := by
  refine .mark h.guarded rfl ?_ hmore
  rw [h.last]
  exact rfl

/-- One call may directly follow another. -/
theorem Run.At.next {c : Call} (h : run.At (.call c)) {c' : Call} (answer : c'.Answer)
    (hnext : c.rank = 3 ∧ c'.rank = 4 ∨ 6 ≤ c.rank ∧ c'.rank = 7)
    (hmore : lastMark? more = none) : Run.At (.call c') (run ++ called c' answer :: more) := by
  refine .mark h.guarded rfl ?_ hmore
  rw [h.last]
  exact hnext

namespace Run.Unbroken

theorem look (h : run.Unbroken) (stopped : Bool) (hmore : lastMark? more = none) :
    Run.At (.look stopped) (run ++ looked stopped :: more) :=
  .mark h.guarded rfl h.last hmore

theorem silent (h : run.Unbroken) (hmore : lastMark? more = none) : (run ++ more).Unbroken where
  guarded := guarded_append_iff.mpr ⟨h.guarded, guardedAfter_of_silent hmore⟩
  last text := by
    rw [lastMark?_append, hmore, Option.none_or]
    exact h.last text

/-- Who enters a phase has just looked. -/
theorem enter (h : run.Unbroken) (phase : Phase) (time : UInt64) (p : Progress) :
    Run.At (.look false)
      (run ++ [looked false, timed time, told (.updated p), told (.phaseStarted phase)]) :=
  h.look false rfl

/-- A failure that ends a build in a phase may be told. -/
theorem abort (h : run.Unbroken) (phase : Phase) (e : PipelineError) (time : UInt64)
    (p : Progress) :
    Guarded (run ++ [timed time, told (.phaseCompleted phase false (some e.message)),
      told (.updated p), told (.failed e.message)]) :=
  guarded_append_iff.mpr ⟨h.guarded, h.last, trivial⟩

end Run.Unbroken

/-- Nothing that leaves a mark comes after a failure that was told. -/
theorem lastMark?_eq_none_of_fault {text : String}
    (h : GuardedAfter (some (.fault text)) more) : lastMark? more = none := by
  induction more with
  | nil => rfl
  | cons x rest ih =>
    rw [GuardedAfter] at h
    cases hx : markOf? x with
    | none =>
      rw [hx] at h
      rw [← List.singleton_append, lastMark?_append, ih h]
      simp [lastMark?, hx]
    | some m =>
      rw [hx] at h
      cases m with
      | call c => exact absurd h.1 id
      | look stopped => exact absurd rfl (h.1 text)
      | fault text' => exact absurd rfl (h.1 text)

/-- A build whose last mark is a look has not told of a failure. -/
theorem Run.At.not_failed {stopped : Bool} (h : run.At (.look stopped)) (text : String) :
    Event.failed text ∉ events run := by
  intro hmem
  obtain ⟨⟨q, answer⟩, hx, hevent⟩ := List.mem_filterMap.mp hmem
  cases q with
  | tell e =>
    obtain rfl : e = .failed text := Option.some.inj hevent
    obtain ⟨before, after, rfl⟩ := List.append_of_mem hx
    obtain ⟨-, -, hafter⟩ := guarded_append_iff.mp h.guarded
    have hlast := h.last
    rw [List.append_cons, lastMark?_append, lastMark?_eq_none_of_fault hafter, Option.none_or,
      lastMark?_concat] at hlast
    exact nomatch hlast
  | call c => exact nomatch hevent
  | now => exact nomatch hevent
  | isCancelled => exact nomatch hevent

end Pipeline
end ProtoBuild
