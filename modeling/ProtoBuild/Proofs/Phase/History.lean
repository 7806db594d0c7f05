import Mathlib.Data.List.Induction
import ProtoBuild.Proofs.Progress.Onward

/-!
# The life of a phase

Whoever runs a build makes calls on the record of a phase: it starts, it is said what it does, its
log gets lines, and it ends.  Nothing forces him to make them in a sensible order.  A phase may end
before it has started, it may be ended twice, and its log may be written to long after.  This
module says what the record looks like after any list of calls on a new one (`PhaseRecord.Life`).

A call is a `Change`, and `after changes` is what a list of them makes of a new record.  Of the six
calls three end a phase; what such a call has to say is an `Ending`, and `endedBy` is the record
with it.  The calls that end a phase have different ways to refuse, and one of them writes to the
log before it looks at all.  Yet on a record that is over all six do nothing (`Change.of_isFinal`),
and on one that is open the three that end it do what their `Ending` says (`Change.of_ending`).

The invariant is `Consistent`: the record is well timed, and it has an error just if it says that
the phase has failed.  The second part is what makes `Change.of_ending` hold.  Success and skipping
leave an error alone that is there already, and only a phase that is over has one.
-/

namespace ProtoBuild
namespace PhaseRecord

/-! ## Calls -/

/-- A call that changes the record of a phase. -/
inductive Change where
  | start (now : UInt64)
  | setSubPhase (text : String)
  | addLog (line : String)
  | succeed (now : UInt64)
  | fail (now : UInt64) (message : String)
  | skip (now : UInt64) (reason : String)
  deriving DecidableEq, Repr

/-- How a phase ends: the state it is left in, the time, its error and the lines its log gets
with it. -/
structure Ending where
  state : PhaseState
  time : UInt64
  error : Option String := none
  lines : List String := []
  isFinal : state.isFinal = true := by rfl
  error_iff : error.isSome = true ↔ state = .failed := by decide

namespace Change

/-- What a call makes of a record. -/
def apply (r : PhaseRecord) : Change → PhaseRecord
  | start now => (r.start now).1
  | setSubPhase text => r.setSubPhase text
  | addLog line => r.addLog line
  | succeed now => (r.succeed now).1
  | fail now message => (r.fail now message).1
  | skip now reason => (r.skip now reason).1

/-- What the caller is told.  Those who write a note are told nothing. -/
def answer? (r : PhaseRecord) : Change → Option Bool
  | start now => some (r.start now).2
  | setSubPhase _ => none
  | addLog _ => none
  | succeed now => some (r.succeed now).2
  | fail now message => some (r.fail now message).2
  | skip now reason => some (r.skip now reason).2

/-- How a phase ends with a call, if it does. -/
def ending? : Change → Option Ending
  | start _ => none
  | setSubPhase _ => none
  | addLog _ => none
  | succeed now => some { state := .succeeded, time := now }
  | fail now message =>
    some { state := .failed, time := now, error := some message, error_iff := by simp }
  | skip now reason => some { state := .skipped, time := now, lines := [reason] }

end Change

/-- The record of a phase that ends.  One that never started starts with its end. -/
def endedBy (r : PhaseRecord) (e : Ending) : PhaseRecord :=
  { r with
    state := e.state
    startTime := some (r.startTime.getD e.time)
    endTime := some e.time
    error := e.error
    log := r.log ++ e.lines }

/-- What a list of calls makes of a new record. -/
def after (changes : List Change) : PhaseRecord :=
  changes.foldl Change.apply {}

/-! ## One call -/

/-- A record is well timed, and it has an error just if the phase has failed. -/
structure Consistent (r : PhaseRecord) : Prop extends r.WellTimed where
  error_iff : r.error.isSome = true ↔ r.state = .failed

variable {r : PhaseRecord} {c : Change} {e : Ending}

theorem consistent_new : Consistent {} :=
  { wellTimed_new with error_iff := by decide }

theorem WellTimed.startTime_iff (h : r.WellTimed) :
    r.startTime.isSome = true ↔ r.state ≠ .notStarted := by
  refine ⟨fun hstart hstate => ?_, h.has_start⟩
  rw [h.no_start hstate] at hstart
  exact Bool.false_ne_true hstart

theorem WellTimed.endTime_iff (h : r.WellTimed) :
    r.endTime.isSome = true ↔ r.isFinal = true := by
  refine ⟨fun hend => ?_, h.has_end⟩
  rw [← Bool.not_eq_false]
  intro hopen
  rw [h.no_end hopen] at hend
  exact Bool.false_ne_true hend

theorem state_ne_failed_of_open (h : r.isFinal = false) : r.state ≠ .failed := by
  intro hfailed
  rw [isFinal, hfailed] at h
  exact Bool.noConfusion h

/-- An open record has no error. -/
theorem Consistent.error_eq_none (h : r.Consistent) (hopen : r.isFinal = false) :
    r.error = none := by
  cases herror : r.error with
  | none => rfl
  | some message =>
    have hfailed := h.error_iff.mp (by rw [herror]; rfl)
    exact absurd hfailed (state_ne_failed_of_open hopen)

theorem finish_of_open (h : r.isFinal = false) (state : PhaseState) (now : UInt64)
    (error : Option String) :
    r.finish state now error =
      ({ r with
          state := state
          startTime := some (r.startTime.getD now)
          endTime := some now
          error := error.orElse fun _ => r.error }, true) := by
  rw [finish, if_neg (by rw [h]; exact Bool.false_ne_true)]

namespace Change

theorem leads_apply (r : PhaseRecord) (c : Change) : r.Leads (c.apply r) := by
  cases c with
  | start now => exact r.leads_start now
  | setSubPhase text => exact r.leads_setSubPhase text
  | addLog line => exact r.leads_addLog line
  | succeed now => exact r.leads_succeed now
  | fail now message => exact r.leads_fail now message
  | skip now reason => exact r.leads_skip now reason

/-- A record that is over takes no call, and nobody is told otherwise. -/
theorem of_isFinal (h : r.isFinal = true) (c : Change) :
    c.apply r = r ∧ c.answer? r ≠ some true := by
  cases c with
  | start now => simp [apply, answer?, start_of_isFinal h]
  | setSubPhase text => simp [apply, answer?, setSubPhase_of_isFinal h]
  | addLog line => simp [apply, answer?, addLog_of_isFinal h]
  | succeed now => simp [apply, answer?, PhaseRecord.succeed, finish_of_isFinal h]
  | fail now message => simp [apply, answer?, PhaseRecord.fail, finish_of_isFinal h]
  | skip now reason => simp [apply, answer?, skip_of_isFinal h]

/-- An open record is ended by each call that means to. -/
theorem of_ending (h : r.Consistent) (hopen : r.isFinal = false) (hc : c.ending? = some e) :
    c.apply r = r.endedBy e ∧ c.answer? r = some true := by
  have herror : r.error = none := h.error_eq_none hopen
  cases c with
  | start now => cases hc
  | setSubPhase text => cases hc
  | addLog line => cases hc
  | succeed now =>
    cases hc
    simp [apply, answer?, PhaseRecord.succeed, finish_of_open hopen, endedBy, herror]
  | fail now message =>
    cases hc
    simp [apply, answer?, PhaseRecord.fail, finish_of_open hopen, endedBy]
  | skip now reason =>
    -- the reason is logged first, which leaves the record open
    have hlogged : (r.addLog reason).isFinal = false :=
      (r.noted_addLog reason).isFinal_eq.trans hopen
    have hlog : r.addLog reason = { r with log := r.log ++ [reason] } := by
      rw [PhaseRecord.addLog, if_neg (by rw [hopen]; exact Bool.false_ne_true)]
    cases hc
    simp only [apply, answer?, PhaseRecord.skip, finish_of_open hlogged]
    simp [hlog, endedBy, herror]

/-- Any other call leaves an open record open, and does not touch its error. -/
theorem of_no_ending (hopen : r.isFinal = false) (hc : c.ending? = none) :
    (c.apply r).isFinal = false ∧ (c.apply r).error = r.error := by
  cases c with
  | start now =>
    rw [apply, PhaseRecord.start]
    split
    · exact ⟨rfl, rfl⟩
    · exact ⟨hopen, rfl⟩
  | setSubPhase text =>
    have hnoted := r.noted_setSubPhase text
    exact ⟨hnoted.isFinal_eq.trans hopen, hnoted.error_eq⟩
  | addLog line =>
    have hnoted := r.noted_addLog line
    exact ⟨hnoted.isFinal_eq.trans hopen, hnoted.error_eq⟩
  | succeed now => cases hc
  | fail now message => cases hc
  | skip now reason => cases hc

/-- A record is over after a call if it was before, or if the call ends it. -/
theorem isFinal_apply (h : r.Consistent) (c : Change) :
    (c.apply r).isFinal = true ↔ r.isFinal = true ∨ c.ending?.isSome = true := by
  cases hfinal : r.isFinal with
  | true => simp [(of_isFinal hfinal c).1, hfinal]
  | false =>
    cases hc : c.ending? with
    | none => simp [(of_no_ending hfinal hc).1]
    | some e => simp [(of_ending h hfinal hc).1, endedBy, PhaseRecord.isFinal, e.isFinal]

end Change

theorem Consistent.apply (h : r.Consistent) (c : Change) : (c.apply r).Consistent := by
  refine { ((c.leads_apply r).onward h.toWellTimed).1 with error_iff := ?_ }
  cases hfinal : r.isFinal with
  | true =>
    rw [(Change.of_isFinal hfinal c).1]
    exact h.error_iff
  | false =>
    cases hc : c.ending? with
    | none =>
      obtain ⟨hopen, herror⟩ := Change.of_no_ending hfinal hc
      rw [herror, h.error_eq_none hfinal]
      exact iff_of_false Bool.false_ne_true (state_ne_failed_of_open hopen)
    | some e =>
      rw [(Change.of_ending h hfinal hc).1]
      exact e.error_iff

/-! ## Any number of calls -/

theorem after_append (changes more : List Change) :
    after (changes ++ more) = more.foldl Change.apply (after changes) :=
  List.foldl_append

theorem leads_after (before more : List Change) :
    (after before).Leads (after (before ++ more)) := by
  rw [after_append]
  exact leads_foldl (fun r c => c.leads_apply r) more (after before)

/-- A record is consistent after any calls. -/
theorem consistent_after (changes : List Change) : (after changes).Consistent :=
  List.foldlRecOn changes Change.apply consistent_new fun _ h c _ => h.apply c

/-- A record is over just if one of the calls was to end it. -/
theorem isFinal_after_iff (changes : List Change) :
    (after changes).isFinal = true ↔ ∃ c ∈ changes, c.ending?.isSome = true := by
  induction changes using List.reverseRecOn with
  | nil => simp [after, isFinal, PhaseState.isFinal]
  | append_singleton before c ih =>
    rw [after_append, List.foldl_cons, List.foldl_nil, c.isFinal_apply (consistent_after before),
      ih]
    simp [or_and_right, exists_or]

/-- What is over stays as it is under any calls. -/
theorem after_of_isFinal {before : List Change} (h : (after before).isFinal = true)
    (more : List Change) : after (before ++ more) = after before :=
  ((leads_after before more).onward (consistent_after before).toWellTimed).2.frozen h

/-- What the record of a phase is after some calls on a new one, whatever the calls and their
order were. -/
structure Life (changes : List Change) : Prop where
  /-- There is a start just if the phase has started. -/
  startTime_iff : (after changes).startTime.isSome = true ↔ (after changes).state ≠ .notStarted
  /-- There is an end just if it is over. -/
  endTime_iff : (after changes).endTime.isSome = true ↔ (after changes).isFinal = true
  /-- There is an error just if it has failed. -/
  error_iff : (after changes).error.isSome = true ↔ (after changes).state = .failed
  /-- What the log had at any time is where it begins later. -/
  log_grows : ∀ before more, changes = before ++ more → (after before).log <+: (after changes).log
  /-- The first call to end it does so, and what it leaves behind is all there will ever be. -/
  first : ∀ before c more e, changes = before ++ c :: more → c.ending? = some e →
    (∀ d ∈ before, d.ending? = none) →
      c.answer? (after before) = some true ∧ c.apply (after before) = (after before).endedBy e ∧
        after changes = (after before).endedBy e
  /-- After it no call does anything, and nobody is told that one did. -/
  late : ∀ before c more d, changes = before ++ c :: more → d ∈ before → d.ending?.isSome = true →
    c.apply (after before) = after before ∧ c.answer? (after before) ≠ some true

/-- A phase ends once, and until then and after its record says what it should. -/
theorem ends_once (changes : List Change) : Life changes where
  startTime_iff := (consistent_after changes).startTime_iff
  endTime_iff := (consistent_after changes).endTime_iff
  error_iff := (consistent_after changes).error_iff
  log_grows := by
    rintro before more rfl
    exact (leads_after before more).log_grows
  first := by
    rintro before c more e rfl hc hbefore
    have hopen : (after before).isFinal = false := by
      rw [← Bool.not_eq_true, isFinal_after_iff]
      rintro ⟨d, hd, hends⟩
      rw [hbefore d hd] at hends
      exact Bool.false_ne_true hends
    obtain ⟨happly, hanswer⟩ := Change.of_ending (consistent_after before) hopen hc
    have hended : after (before ++ [c]) = (after before).endedBy e := by
      rw [after_append]
      exact happly
    have hfinal : (after (before ++ [c])).isFinal = true := by
      rw [hended]
      exact e.isFinal
    refine ⟨hanswer, happly, ?_⟩
    rw [List.append_cons, after_of_isFinal hfinal, hended]
  late := by
    rintro before c more d - hd hends
    exact Change.of_isFinal ((isFinal_after_iff before).mpr ⟨d, hd, hends⟩) c

/-- A phase that is skipped before it starts, then started and failed. -/
example :
    after [.skip 5 "not wanted", .start 6, .addLog "late", .fail 7 "broken"] =
      { state := .skipped, startTime := some 5, endTime := some 5, log := ["not wanted"] } := by
  decide

end PhaseRecord
end ProtoBuild
