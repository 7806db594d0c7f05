import Mathlib.Data.List.Destutter
import ProtoBuild.Proofs.Progress.Times

/-!
# The life of a unit

A unit is moved from one status to another, or it fails, and packages are added to its record.
Here these calls come in any order and with any times, and most of them may well be refused.  What
the record of a new unit says after them is `UnitRecord.Life`.

`history u changes` lists the status before the first call and after each one.  A call that is
refused and one that adds a package repeat the status they find, so what is of interest is
`path u changes`, the same list without such repetitions.

A final status is not the last one a unit takes: one that is built may still be published, or
fail.  Hence the end of a unit is the time of its first final status and not that of its last.
That the time is kept is already known of every change (`UnitRecord.Leads`).  That it is the right
one needs the record before the call: as long as no status was final it has no end
(`UnitRecord.WellTimed`), and the first call that brings a final one writes its own time
(`Moved.endTime_eq`).  It is the same for the start.

## Why a path is short

Every edge leads to a higher rank, and there are four ranks (`UnitStatus.rank`).
-/

namespace ProtoBuild

namespace UnitStatus

variable {a b : UnitStatus}

/-- A number that grows along every edge. -/
def rank : UnitStatus → Nat
  | pending => 0
  | building => 1
  | built => 2
  | published | failed | skipped => 3

theorem rank_le (s : UnitStatus) : s.rank ≤ 3 := by
  cases s <;> decide

theorem rank_lt_of_canBecome (h : a.canBecome b = true) : a.rank < b.rank := by
  revert h
  cases a <;> cases b <;> decide

theorem canBecome_self (s : UnitStatus) : s.canBecome s = false := by
  cases s <;> rfl

/-- A unit that failed does not move any more. -/
theorem not_failed_of_canBecome (h : a.canBecome b = true) : a ≠ .failed := by
  rintro rfl
  exact Bool.false_ne_true h

/-- Along the edges a unit is soon where it can go no further. -/
theorem length_le_of_isChain {s : UnitStatus} {later : List UnitStatus}
    (h : (s :: later).IsChain fun a b => a.canBecome b = true) : s.rank + later.length ≤ 3 := by
  induction later generalizing s with
  | nil => exact s.rank_le
  | cons next later ih =>
    obtain ⟨hedge, hrest⟩ := List.isChain_cons_cons.mp h
    have hrank := rank_lt_of_canBecome hedge
    have hlater := ih hrest
    rw [List.length_cons]
    omega

/-- No edge leads back to the beginning. -/
theorem pending_notMem_of_isChain {s : UnitStatus} {later : List UnitStatus}
    (h : (s :: later).IsChain fun a b => a.canBecome b = true) : UnitStatus.pending ∉ later := by
  induction later generalizing s with
  | nil => exact List.not_mem_nil
  | cons next later ih =>
    obtain ⟨hedge, hrest⟩ := List.isChain_cons_cons.mp h
    refine List.not_mem_cons_of_ne_of_not_mem ?_ (ih hrest)
    rintro rfl
    rw [canBecome_pending] at hedge
    exact Bool.false_ne_true hedge

/-- If each status is the one before or follows it along an edge, then without the repetitions
each follows along an edge. -/
theorem isChain_destutter' {s : UnitStatus} {later : List UnitStatus}
    (h : (s :: later).IsChain fun a b => a = b ∨ a.canBecome b = true) :
    ∃ kept, later.destutter' (· ≠ ·) s = s :: kept ∧
      (s :: kept).IsChain fun a b => a.canBecome b = true := by
  induction later generalizing s with
  | nil => exact ⟨[], rfl, .singleton s⟩
  | cons next later ih =>
    obtain ⟨hnext, hrest⟩ := List.isChain_cons_cons.mp h
    obtain ⟨kept, hkept, hchain⟩ := ih hrest
    rcases hnext with rfl | hedge
    · exact ⟨kept, by rw [List.destutter'_cons_neg _ (not_not.mpr rfl), hkept], hchain⟩
    · have hne : s ≠ next := by
        rintro rfl
        rw [canBecome_self] at hedge
        exact Bool.false_ne_true hedge
      refine ⟨next :: kept, ?_, List.isChain_cons_cons.mpr ⟨hedge, hchain⟩⟩
      rw [List.destutter'_cons_pos _ hne, hkept]

end UnitStatus

namespace UnitRecord

/-! ## Calls -/

/-- A call that changes the record of a unit. -/
inductive Change where
  | move (next : UnitStatus) (now : UInt64)
  | fail (message : String) (now : UInt64)
  | addArtifact (a : Artifact)

namespace Change

/-- What a call makes of a record. -/
def apply (u : UnitRecord) : Change → UnitRecord
  | move next now => (u.move next now).1
  | fail message now => (u.fail message now).1
  | addArtifact a => u.addArtifact a

/-- What the caller is told.  Who adds a package is told nothing. -/
def answer? (u : UnitRecord) : Change → Option Bool
  | move next now => some (u.move next now).2
  | fail message now => some (u.fail message now).2
  | addArtifact _ => none

/-- The status that a call asks for. -/
def goal? : Change → Option UnitStatus
  | move next _ => some next
  | fail _ _ => some .failed
  | addArtifact _ => none

/-- The time of a call. -/
def time? : Change → Option UInt64
  | move _ now => some now
  | fail _ now => some now
  | addArtifact _ => none

end Change

/-- What a list of calls makes of a record. -/
def after (u : UnitRecord) (changes : List Change) : UnitRecord :=
  changes.foldl Change.apply u

/-- The status before the first call and after each of them. -/
def history (u : UnitRecord) (changes : List Change) : List UnitStatus :=
  (changes.scanl Change.apply u).map status

/-- The statuses one after another, each as often as it was taken. -/
def path (u : UnitRecord) (changes : List Change) : List UnitStatus :=
  (u.history changes).destutter (· ≠ ·)

variable {u : UnitRecord} {next : UnitStatus} {c : Change}

theorem history_nil (u : UnitRecord) : u.history [] = [u.status] := rfl

theorem history_cons (u : UnitRecord) (c : Change) (rest : List Change) :
    u.history (c :: rest) = u.status :: (c.apply u).history rest := by
  rw [history, List.scanl_cons, List.map_cons, history]

theorem head?_history (u : UnitRecord) (changes : List Change) :
    (u.history changes).head? = some u.status := by
  rw [history, List.head?_map, List.head?_scanl, Option.map_some]

theorem status_mem_history (u : UnitRecord) (changes : List Change) :
    u.status ∈ u.history changes :=
  List.mem_of_mem_head? (u.head?_history changes)

theorem status_after_mem_history (u : UnitRecord) (changes : List Change) :
    (u.after changes).status ∈ u.history changes := by
  refine List.mem_of_getLast? ?_
  rw [history, List.getLast?_map, List.getLast?_scanl, Option.map_some, after]

theorem after_append (u : UnitRecord) (changes more : List Change) :
    u.after (changes ++ more) = (u.after changes).after more :=
  List.foldl_append

theorem after_cons (u : UnitRecord) (before : List Change) (c : Change) (more : List Change) :
    u.after (before ++ c :: more) = (c.apply (u.after before)).after more := by
  rw [after_append, after, List.foldl_cons, ← after]

theorem WellTimed.endTime_iff (h : u.WellTimed) :
    u.endTime.isSome = true ↔ u.status.isFinal = true := by
  refine ⟨fun hend => ?_, h.has_end⟩
  rw [← Bool.not_eq_false]
  intro hopen
  rw [h.no_end hopen] at hend
  exact Bool.false_ne_true hend

/-! ## One call -/

/-- Packages apart, a record is as it was. -/
structure Stayed (u u' : UnitRecord) : Prop where
  status_eq : u'.status = u.status
  startTime_eq : u'.startTime = u.startTime
  endTime_eq : u'.endTime = u.endTime
  error_eq : u'.error = u.error

/-- A record has taken another status, and the times that come with it. -/
structure Moved (next : UnitStatus) (now : UInt64) (u u' : UnitRecord) : Prop where
  edge : u.status.canBecome next = true
  status_eq : u'.status = next
  startTime_eq : u'.startTime =
    if next = .building then some (u.startTime.getD now) else u.startTime
  endTime_eq : u'.endTime = if next.isFinal then some (u.endTime.getD now) else u.endTime
  error : next = .failed ∨ u'.error = u.error

theorem moved_move (h : u.status.canBecome next = true) (now : UInt64) :
    u.Moved next now (u.move next now).1 := by
  rw [move_of_canBecome h]
  exact ⟨h, rfl, rfl, rfl, .inr rfl⟩

theorem fail_of_canBecome (h : u.status.canBecome .failed = true) (message : String)
    (now : UInt64) :
    u.fail message now = ({ (u.move .failed now).1 with error := some message }, true) := by
  rw [fail, move_of_canBecome h]

theorem fail_of_not_canBecome (h : u.status.canBecome .failed = false) (message : String)
    (now : UInt64) : u.fail message now = (u, false) := by
  rw [fail, move_of_not_canBecome h]

theorem moved_fail (h : u.status.canBecome .failed = true) (message : String) (now : UInt64) :
    u.Moved .failed now (u.fail message now).1 := by
  have hmoved := moved_move h now
  rw [fail_of_canBecome h]
  exact ⟨h, hmoved.status_eq, hmoved.startTime_eq, hmoved.endTime_eq, .inl rfl⟩

namespace Change

theorem leads_apply (u : UnitRecord) (c : Change) : u.Leads (c.apply u) := by
  cases c with
  | move next now => exact u.leads_move next now
  | fail message now => exact u.leads_fail message now
  | addArtifact a => exact u.leads_addArtifact a

/-- A call is accepted just if there is an edge to the status it asks for. -/
theorem answer?_eq (u : UnitRecord) (c : Change) :
    c.answer? u = c.goal?.map u.status.canBecome := by
  cases c with
  | move next now =>
    cases hedge : u.status.canBecome next with
    | false => simp [answer?, goal?, move_of_not_canBecome hedge, hedge]
    | true => simp [answer?, goal?, move_of_canBecome hedge, hedge]
  | fail message now =>
    cases hedge : u.status.canBecome .failed with
    | false => simp [answer?, goal?, fail_of_not_canBecome hedge, hedge]
    | true => simp [answer?, goal?, fail_of_canBecome hedge, hedge]
  | addArtifact a => rfl

/-- What is refused changes nothing. -/
theorem apply_of_refused (h : c.answer? u = some false) : c.apply u = u := by
  rw [answer?_eq, Option.map_eq_some_iff] at h
  obtain ⟨goal, hgoal, hedge⟩ := h
  cases c with
  | move next now =>
    cases hgoal
    rw [apply, move_of_not_canBecome hedge]
  | fail message now =>
    cases hgoal
    rw [apply, fail_of_not_canBecome hedge]
  | addArtifact a => cases hgoal

/-- All that a call can do to the status, the times and the error. -/
theorem apply_cases (u : UnitRecord) (c : Change) :
    u.Stayed (c.apply u) ∨ ∃ next now, c.time? = some now ∧ u.Moved next now (c.apply u) := by
  cases c with
  | move next now =>
    cases hedge : u.status.canBecome next with
    | false =>
      rw [apply, move_of_not_canBecome hedge]
      exact .inl ⟨rfl, rfl, rfl, rfl⟩
    | true => exact .inr ⟨next, now, rfl, moved_move hedge now⟩
  | fail message now =>
    cases hedge : u.status.canBecome .failed with
    | false =>
      rw [apply, fail_of_not_canBecome hedge]
      exact .inl ⟨rfl, rfl, rfl, rfl⟩
    | true => exact .inr ⟨.failed, now, rfl, moved_fail hedge message now⟩
  | addArtifact a => exact .inl ⟨rfl, rfl, rfl, rfl⟩

theorem status_apply (u : UnitRecord) (c : Change) :
    u.status = (c.apply u).status ∨ u.status.canBecome (c.apply u).status = true := by
  obtain hstayed | ⟨next, now, -, hmoved⟩ := c.apply_cases u
  · exact .inl hstayed.status_eq.symm
  · exact .inr (hmoved.status_eq ▸ hmoved.edge)

/-- A unit gets a start just with the status that says it is with the build tool. -/
theorem startTime_apply (h : u.WellTimed) (c : Change) :
    (c.apply u).startTime.isSome = true ↔
      u.startTime.isSome = true ∨ (c.apply u).status = .building := by
  obtain hstayed | ⟨next, now, -, hmoved⟩ := c.apply_cases u
  · rw [hstayed.startTime_eq, hstayed.status_eq]
    exact ⟨.inl, fun h' => h'.elim id fun hbuilding => h.has_start (.inl hbuilding)⟩
  · rw [hmoved.startTime_eq, hmoved.status_eq]
    split
    · rename_i hbuilding
      exact iff_of_true rfl (.inr hbuilding)
    · rename_i hother
      exact (or_iff_left hother).symm

/-- If only a unit that has failed has an error, this stays so. -/
theorem error_apply (h : u.error.isSome = true → u.status = .failed) (c : Change) :
    (c.apply u).error.isSome = true → (c.apply u).status = .failed := by
  obtain hstayed | ⟨next, now, -, hmoved⟩ := c.apply_cases u
  · rw [hstayed.error_eq, hstayed.status_eq]
    exact h
  · rcases hmoved.error with hfailed | herror
    · exact fun _ => hmoved.status_eq.trans hfailed
    · rw [herror]
      exact fun hsome => absurd (h hsome) (UnitStatus.not_failed_of_canBecome hmoved.edge)

/-- A unit that has no start and is given to the build tool starts with the time of the call. -/
theorem first_start (h : u.WellTimed) (hnone : u.startTime = none)
    (hbuilding : (c.apply u).status = .building) :
    ∃ t, c.time? = some t ∧ (c.apply u).startTime = some t := by
  obtain hstayed | ⟨next, now, htime, hmoved⟩ := c.apply_cases u
  · have hsome := h.has_start (.inl (hstayed.status_eq ▸ hbuilding))
    rw [hnone] at hsome
    exact absurd hsome Bool.false_ne_true
  · refine ⟨now, htime, ?_⟩
    rw [hmoved.startTime_eq, if_pos (hmoved.status_eq.symm.trans hbuilding), hnone,
      Option.getD_none]

/-- A unit whose status was not final and is final now ends with the time of the call. -/
theorem first_end (h : u.WellTimed) (hopen : u.status.isFinal = false)
    (hfinal : (c.apply u).status.isFinal = true) :
    ∃ t, c.time? = some t ∧ (c.apply u).endTime = some t := by
  obtain hstayed | ⟨next, now, htime, hmoved⟩ := c.apply_cases u
  · rw [hstayed.status_eq, hopen] at hfinal
    exact absurd hfinal Bool.false_ne_true
  · refine ⟨now, htime, ?_⟩
    rw [hmoved.endTime_eq, if_pos (hmoved.status_eq ▸ hfinal), h.no_end hopen, Option.getD_none]

end Change

/-! ## Any number of calls -/

theorem leads_after (u : UnitRecord) (changes : List Change) : u.Leads (u.after changes) := by
  induction changes generalizing u with
  | nil => exact .refl u
  | cons c rest ih => exact (c.leads_apply u).trans (ih (c.apply u))

theorem WellTimed.after (h : u.WellTimed) (changes : List Change) : (u.after changes).WellTimed :=
  (u.leads_after changes).wellTimed h

/-- Each status is the one before or follows it along an edge. -/
theorem isChain_history (u : UnitRecord) (changes : List Change) :
    (u.history changes).IsChain fun a b => a = b ∨ a.canBecome b = true := by
  induction changes generalizing u with
  | nil => exact .singleton _
  | cons c rest ih =>
    rw [history_cons, List.isChain_cons, head?_history]
    refine ⟨fun s hs => ?_, ih (c.apply u)⟩
    cases hs
    exact c.status_apply u

theorem path_eq_cons (u : UnitRecord) (changes : List Change) :
    ∃ later, u.path changes = u.status :: later ∧
      (u.status :: later).IsChain fun a b => a.canBecome b = true := by
  have hchain := u.isChain_history changes
  obtain ⟨rest, hrest⟩ := List.head?_eq_some_iff.mp (u.head?_history changes)
  rw [hrest] at hchain
  rw [path, hrest, List.destutter_cons']
  exact UnitStatus.isChain_destutter' hchain

/-- A unit has a start if it had one before or was with the build tool since. -/
theorem startTime_after (h : u.WellTimed) (changes : List Change) :
    (u.after changes).startTime.isSome = true ↔
      u.startTime.isSome = true ∨ UnitStatus.building ∈ u.history changes := by
  induction changes generalizing u with
  | nil =>
    rw [history_nil, List.mem_singleton]
    exact ⟨.inl, fun h' => h'.elim id fun hbuilding => h.has_start (.inl hbuilding.symm)⟩
  | cons c rest ih =>
    -- a unit that is given to the build tool now is so where the history of the rest begins
    have hnow : (c.apply u).status = .building →
        UnitStatus.building ∈ (c.apply u).history rest :=
      fun hbuilding => hbuilding ▸ (c.apply u).status_mem_history rest
    have hbefore : UnitStatus.building = u.status → u.startTime.isSome = true :=
      fun hbuilding => h.has_start (.inl hbuilding.symm)
    rw [history_cons, List.mem_cons, after, List.foldl_cons, ← after,
      ih ((c.leads_apply u).wellTimed h), c.startTime_apply h]
    tauto

/-- A unit that is yet to be built gets a start just if it is given to the build tool. -/
theorem startTime_after_iff (h : u.WellTimed) (hpending : u.status = .pending)
    (changes : List Change) :
    (u.after changes).startTime.isSome = true ↔ UnitStatus.building ∈ u.history changes := by
  rw [startTime_after h, h.no_start hpending]
  exact or_iff_right Bool.false_ne_true

theorem error_after (h : u.error.isSome = true → u.status = .failed) (changes : List Change) :
    (u.after changes).error.isSome = true → (u.after changes).status = .failed := by
  induction changes generalizing u with
  | nil => exact h
  | cons c rest ih => exact ih (c.error_apply h)

/-- What the record of a unit is after some calls on a new one, whatever the calls, their times and
their order were. -/
structure Life (u : UnitRecord) (changes : List Change) : Prop where
  /-- Its status went along the edges, never back to the beginning, and moved at most three
  times. -/
  path : ∃ later, u.path changes = .pending :: later ∧
    (.pending :: later).IsChain (fun a b => a.canBecome b = true) ∧
      UnitStatus.pending ∉ later ∧ later.length ≤ 3
  /-- There is a start just if it was given to the build tool. -/
  startTime_iff : (u.after changes).startTime.isSome = true ↔
    UnitStatus.building ∈ u.history changes
  /-- The start is the time of the call that first did so. -/
  startTime_eq : ∀ before c more, changes = before ++ c :: more →
    UnitStatus.building ∉ u.history before → (c.apply (u.after before)).status = .building →
      (u.after changes).startTime = c.time?
  /-- There is an end just if the status is final. -/
  endTime_iff : (u.after changes).endTime.isSome = true ↔
    (u.after changes).status.isFinal = true
  /-- The end is the time of the call that first brought a final status, whatever came then. -/
  endTime_eq : ∀ before c more, changes = before ++ c :: more →
    (∀ s ∈ u.history before, s.isFinal = false) →
      (c.apply (u.after before)).status.isFinal = true → (u.after changes).endTime = c.time?
  /-- Only a unit that failed has an error. -/
  error : (u.after changes).error.isSome = true → (u.after changes).status = .failed
  /-- A call is accepted just if there is an edge to the status it asks for. -/
  answered : ∀ before c more, changes = before ++ c :: more →
    c.answer? (u.after before) = c.goal?.map (u.after before).status.canBecome
  /-- A call that is refused changes nothing. -/
  refused : ∀ before c more, changes = before ++ c :: more →
    c.answer? (u.after before) = some false → c.apply (u.after before) = u.after before

/-- All this holds of a unit that is yet to be built, as long as its record is in order. -/
theorem life_of_pending (h : u.WellTimed) (hpending : u.status = .pending)
    (herror : u.error = none) (changes : List Change) : Life u changes where
  path := by
    obtain ⟨later, hlater, hchain⟩ := u.path_eq_cons changes
    rw [hpending] at hlater hchain
    refine ⟨later, hlater, hchain, UnitStatus.pending_notMem_of_isChain hchain, ?_⟩
    simpa [UnitStatus.rank] using UnitStatus.length_le_of_isChain hchain
  startTime_iff := startTime_after_iff h hpending changes
  startTime_eq := by
    rintro before c more rfl hbefore hbuilding
    have hnone : (u.after before).startTime = none := by
      rw [← Option.not_isSome_iff_eq_none, startTime_after_iff h hpending]
      exact hbefore
    obtain ⟨t, htime, ht⟩ := Change.first_start (h.after before) hnone hbuilding
    rw [after_cons, htime]
    exact (leads_after _ more).onward.start_kept t ht
  endTime_iff := (h.after changes).endTime_iff
  endTime_eq := by
    rintro before c more rfl hbefore hfinal
    have hopen := hbefore _ (u.status_after_mem_history before)
    obtain ⟨t, htime, ht⟩ := Change.first_end (h.after before) hopen hfinal
    rw [after_cons, htime]
    exact (leads_after _ more).onward.end_kept t ht
  error := error_after (by rw [herror]; exact fun hsome => absurd hsome Bool.false_ne_true) changes
  answered := fun before c more _ => c.answer?_eq (u.after before)
  refused := fun before c more _ hrefused => Change.apply_of_refused hrefused

/-- A unit moves forward only, and its start and its end are those of the first moves that bring
them. -/
theorem stamped_once (target version : String) (changes : List Change) :
    Life { target := target, version := version } changes :=
  life_of_pending (wellTimed_new target version) rfl rfl changes

/-- A unit that fails after it was built.  It is not built twice. -/
example :
    path { target := "a", version := "1" }
      [.move .building 1, .move .built 2, .move .building 3, .fail "broken" 4] =
        [.pending, .building, .built, .failed] := by
  decide

end UnitRecord
end ProtoBuild
