import Mathlib.Data.List.Induction
import Mathlib.Data.List.Nodup
import ProtoBuild.Proofs.Registry.Finality
import ProtoBuild.Proofs.Registry.Stored
import ProtoBuild.Proofs.StringMap.Values
import ProtoBuild.Proofs.Text.Numerals

/-!
# A sweep forgets what has been over for long enough

An operation that has ended is kept for a while, so that whoever asked for it can still see what
became of it.  After that it is forgotten by a sweep.  A sweep that takes too much loses an
operation somebody waits for, and one that touches more than the entries blocks a resource for
ever or gives away one that is in use.

`Forgets` says what a sweep does: what has expired is gone, all else is there as it was, and the
number that is given is that of the names that are gone.  A sweep looks only at the time of the
end, so it takes away nothing that is still running because such an entry has no such time
(`Entry.Coherent.isKept_iff`).  And this time is the one at which the message arrived that ended
the operation (`exists_end`), since whatever comes later is refused.  Where a shutdown looks at the
clock anew for each operation, it is a list of cancellations (`shutdown_eq_after`).

## Why expiry is said in natural numbers

Times and retentions are words of sixty-four bits, and the clock may be set back, so the time of
an end may lie ahead of now.  `Entry.Expired` subtracts natural numbers, where nothing is below
zero: then no time has passed since the end, and only a retention of less than a millisecond has
run out.  A retention that is too long for a word is the longest that fits one, and that it is
compared as such is a part of the statement.
-/

namespace ProtoBuild

/-- An operation is done, and since it ended at least so many milliseconds have passed. -/
def Entry.Expired (e : Entry) (millis : Nat) (now : UInt64) : Prop :=
  e.operation.done = true ∧ ∃ ended, e.endedAt = some ended ∧ millis ≤ now.toNat - ended.toNat

/-- What a sweep keeps has not expired. -/
theorem Entry.Coherent.isKept_iff {e : Entry} (h : e.Coherent) (retention now : UInt64) :
    e.isKept retention now = true ↔ ¬ e.Expired retention.toNat now := by
  rw [Entry.isKept, Entry.Expired]
  cases hended : e.endedAt with
  | none => simp
  | some ended =>
    have hdone : e.operation.done = true := h.ended_iff.mp (by rw [hended]; rfl)
    simp only [hdone, true_and, Option.some.injEq, exists_eq_left', decide_eq_true_eq, Nat.not_le,
      UInt64.lt_iff_toNat_lt, Text.toNat_monus]

namespace Registry

variable {r : Registry} {name : OperationName} {e : Entry}

/-- What a sweep does to a registry at some time: the operations that have expired are gone, and
their number is given.  What else is known is known as it was; above all no operation is opened or
closed, no resource is freed or taken, and no token is tripped. -/
structure Forgets (r : Registry) (millis : Nat) (now : UInt64) (r' : Registry) (count : Nat) :
    Prop where
  entry_iff : ∀ name e,
    r'.entryOf? name = some e ↔ r.entryOf? name = some e ∧ ¬ e.Expired millis now
  exists_names : ∃ names : List OperationName, names.Nodup ∧ names.length = count ∧
    ∀ name, name ∈ names ↔ ∃ e, r.entryOf? name = some e ∧ e.Expired millis now
  open_iff : ∀ name e, r'.Open name e ↔ r.Open name e
  active_eq : r'.active = r.active
  tripped_eq : r'.tripped = r.tripped

/-! ## What is forgotten -/

/-- The names of the operations that a sweep forgets. -/
def swept (r : Registry) (retention now : UInt64) : List OperationName :=
  (r.entries.filter fun _ e => ! e.isKept retention now).keys.map OperationName.mk

theorem length_swept (r : Registry) (retention now : UInt64) :
    (r.swept retention now).length = (r.sweep retention now).2 := by
  rw [swept, List.length_map, StringMap.length_keys]
  exact (StringMap.size_sub_size_filter r.entries fun _ e => e.isKept retention now).symm

theorem nodup_swept (r : Registry) (retention now : UInt64) : (r.swept retention now).Nodup :=
  (StringMap.nodup_keys _).map fun _ _ => congrArg OperationName.text

theorem mem_swept_iff (retention now : UInt64) :
    name ∈ r.swept retention now ↔
      ∃ e, r.entryOf? name = some e ∧ e.isKept retention now = false := by
  have hkey : name ∈ r.swept retention now ↔
      name.text ∈ (r.entries.filter fun _ e => ! e.isKept retention now).keys := by
    rw [swept, List.mem_map]
    constructor
    · rintro ⟨key, hkey, rfl⟩
      exact hkey
    · exact fun hkey => ⟨name.text, hkey, rfl⟩
  simp only [hkey, StringMap.mem_keys_iff, StringMap.get?_filter, Option.filter_eq_some_iff,
    Bool.not_eq_true', entryOf?]

theorem Agrees.forgets_sweep (h : r.Agrees) (retention now : UInt64) :
    r.Forgets retention.toNat now (r.sweep retention now).1 (r.sweep retention now).2 where
  entry_iff name e := by
    rw [entryOf?_sweep, Option.filter_eq_some_iff]
    exact and_congr_right fun he => (h.coherent he).isKept_iff retention now
  exists_names := by
    refine ⟨r.swept retention now, nodup_swept r retention now, length_swept r retention now,
      fun name => ?_⟩
    rw [mem_swept_iff]
    refine exists_congr fun e => and_congr_right fun he => ?_
    rw [← Bool.not_eq_true, (h.coherent he).isKept_iff, Classical.not_not]
  open_iff name e := h.open_sweep_iff retention now
  active_eq := rfl
  tripped_eq := rfl

/-- A second sweep at the same time finds nothing. -/
theorem sweep_sweep (r : Registry) (retention now : UInt64) :
    (r.sweep retention now).1.sweep retention now = ((r.sweep retention now).1, 0) := by
  have hkept := StringMap.filter_filter_self r.entries fun _ e => e.isKept retention now
  simp only [sweep, hkept, Nat.sub_self]

/-! ## When an operation ended -/

theorem after_append (r : Registry) (retention : UInt64) (before rest : List (UInt64 × Message)) :
    r.after retention (before ++ rest) = (r.after retention before).after retention rest :=
  List.foldl_append

/-- One of the messages ended an operation that was open, and left it in an entry that has stood
under its name ever since. -/
structure EndedBy (retention : UInt64) (messages : List (UInt64 × Message)) (name : OperationName)
    (e : Entry) (time : UInt64) (message : Message) (before rest : List (UInt64 × Message)) :
    Prop where
  eq_append : messages = before ++ (time, message) :: rest
  ends : ∃ d, (empty.after retention before).Open name d ∧ Ends name d time message e
  stands : ∀ more, more <+: rest →
    (empty.after retention (before ++ (time, message) :: more)).entryOf? name = some e

/-- The time of an end is that of the message which ended the operation. -/
theorem EndedBy.endedAt_eq {retention time : UInt64} {message : Message}
    {messages before rest : List (UInt64 × Message)}
    (h : EndedBy retention messages name e time message before rest) : e.endedAt = some time := by
  obtain ⟨d, -, hends⟩ := h.ends
  cases hends <;> rfl

/-- What was there before a further message and is there after it has stood through it. -/
theorem EndedBy.concat {retention time : UInt64} {message : Message} {last : UInt64 × Message}
    {messages before rest : List (UInt64 × Message)}
    (h : EndedBy retention messages name e time message before rest)
    (hlast : (empty.after retention (messages ++ [last])).entryOf? name = some e) :
    EndedBy retention (messages ++ [last]) name e time message before (rest ++ [last]) where
  eq_append := by rw [h.eq_append, List.append_assoc, List.cons_append]
  ends := h.ends
  stands more hmore := by
    rcases List.prefix_concat_iff.mp hmore with rfl | hmore
    · rwa [h.eq_append, List.append_assoc, List.cons_append] at hlast
    · exact h.stands more hmore

/-- **Whatever is done was ended by a message**, the last one that changed it. -/
theorem exists_end (retention : UInt64) (messages : List (UInt64 × Message))
    (h : (empty.after retention messages).Closed name e) :
    ∃ time message before rest, EndedBy retention messages name e time message before rest := by
  induction messages using List.reverseRecOn with
  | nil => exact nomatch h.1
  | append_singleton messages last ih =>
    obtain ⟨time, message⟩ := last
    have hstep : ((empty.after retention messages).handle retention time message).1.entryOf? name =
        some e := by
      have hentry := h.1
      rwa [after_append] at hentry
    rcases done_cases h.2 hstep with hbefore | ⟨d, ho, hends⟩
    · obtain ⟨time', message', before, rest, hend⟩ := ih ⟨hbefore, h.2⟩
      exact ⟨time', message', before, _, hend.concat h.1⟩
    · refine ⟨time, message, messages, [], rfl, ⟨d, ho, hends⟩, fun more hmore => ?_⟩
      rw [List.prefix_nil.mp hmore]
      exact h.1

/-! ## What a sweep does after any messages -/

theorem toNat_wholeMillis (nanos : Nat) :
    (wholeMillis nanos).toNat = min (nanos / 1000000) (UInt64.size - 1) :=
  Text.toNat_clampWord_eq_min (nanos / 1000000)

/-- **A sweep forgets just what has expired.**  After any messages at any times, and whatever the
clock shows, a sweep takes away the operations that are done and whose end lies at least the whole
milliseconds of the retention back, counted as the largest word if they are more.  It gives their
number, leaves all else as it is, and a second one at the same time finds nothing.  An operation
that is done carries the time of the message that ended it. -/
theorem sweep_forgets (retention : UInt64) (messages : List (UInt64 × Message)) (nanos : Nat)
    (now : UInt64) :
    (empty.after retention messages).Forgets (min (nanos / 1000000) (UInt64.size - 1)) now
        ((empty.after retention messages).sweep (wholeMillis nanos) now).1
        ((empty.after retention messages).sweep (wholeMillis nanos) now).2 ∧
      ((empty.after retention messages).sweep (wholeMillis nanos) now).1.sweep (wholeMillis nanos)
          now =
        (((empty.after retention messages).sweep (wholeMillis nanos) now).1, 0) ∧
      ∀ name e, (empty.after retention messages).Closed name e →
        ∃ time message before rest, e.endedAt = some time ∧
          EndedBy retention messages name e time message before rest := by
  have hagrees : (empty.after retention messages).Agrees := Agrees.empty.after retention messages
  have hforgets := hagrees.forgets_sweep (wholeMillis nanos) now
  rw [toNat_wholeMillis] at hforgets
  refine ⟨hforgets, sweep_sweep _ _ _, fun name e he => ?_⟩
  obtain ⟨time, message, before, rest, hend⟩ := exists_end retention messages he
  exact ⟨time, message, before, rest, hend.endedAt_eq, hend⟩

/-- An operation that ended at time 2 is there to the last of its ten minutes, and also while the
clock is set back before its end.  Then it is forgotten and counted. -/
theorem sweep_forgets_completion :
    ∃ e, (empty.after 600000 completion).Closed ⟨"lakes/a/operations/op-1"⟩ e ∧
      (∃ message before rest,
        EndedBy 600000 completion ⟨"lakes/a/operations/op-1"⟩ e 2 message before rest) ∧
      (∀ now ∈ [1, 600001],
        ((empty.after 600000 completion).sweep (wholeMillis 600000999999) now).1.entryOf?
          ⟨"lakes/a/operations/op-1"⟩ = some e) ∧
      ((empty.after 600000 completion).sweep (wholeMillis 600000999999) 600002).1.entryOf?
        ⟨"lakes/a/operations/op-1"⟩ = none ∧
      ((empty.after 600000 completion).sweep (wholeMillis 600000999999) 600002).2 = 1 := by
  have hentry : ∃ e, (empty.after 600000 completion).Closed ⟨"lakes/a/operations/op-1"⟩ e ∧
      e.endedAt = some 2 := ⟨_, ⟨rfl, rfl⟩, rfl⟩
  obtain ⟨e, hclosed, hended⟩ := hentry
  obtain ⟨hgone, -, hends⟩ := sweep_forgets 600000 completion 600000999999 600002
  refine ⟨e, hclosed, ?_, fun now hnow => ?_, ?_, ?_⟩
  · obtain ⟨time, message, before, rest, htime, hend⟩ := hends _ e hclosed
    obtain rfl := Option.some.inj (htime.symm.trans hended)
    exact ⟨message, before, rest, hend⟩
  · obtain ⟨hkept, -⟩ := sweep_forgets 600000 completion 600000999999 now
    refine (hkept.entry_iff _ e).mpr ⟨hclosed.1, ?_⟩
    rintro ⟨-, ended, hended', hle⟩
    obtain rfl := Option.some.inj (hended'.symm.trans hended)
    simp only [List.mem_cons, List.not_mem_nil, or_false] at hnow
    rcases hnow with rfl | rfl
    · exact absurd hle (by decide)
    · exact absurd hle (by decide)
  · refine Option.eq_none_iff_forall_ne_some.mpr fun d hd => ?_
    obtain ⟨hd, hnot⟩ := (hgone.entry_iff _ d).mp hd
    obtain rfl := Option.some.inj (hd.symm.trans hclosed.1)
    exact hnot ⟨hclosed.2, 2, hended, by decide⟩
  · rfl

end Registry
end ProtoBuild
