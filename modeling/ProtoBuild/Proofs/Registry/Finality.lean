import ProtoBuild.Pipeline
import ProtoBuild.Proofs.Registry.Agreement

/-!
# An operation that has ended stays as it is

Whoever polls an operation stops once it is done, and keeps what he was told.  So what he
was told has to be the whole end of the operation, and nothing that comes later may change it:
a worker that finishes after a cancellation, a second failure, progress that was under way, a
shutdown.

`Closed` is an operation that is registered and done.  Every change that names it is refused
and leaves the whole registry as it is (`Closed.refuses`), and a change that is not refused
is about another operation.  What is left are the two messages that forget operations.  So a
message keeps a closed operation to the letter or takes it away (`Closed.handle`), and through
a list of messages it stands as it is up to the first deletion or sweep that takes it away
(`Closed.keeps_or_forgotten`).

## Why the first removal is spelled out

A name that was forgotten may be used again.  To say only that an operation is still there or
was removed at some time would allow that it was removed, came back as something else and is
found in a third form.  So what is said is that it is the same at all times before the message
that takes it away.
-/

namespace ProtoBuild

/-- An operation that has not ended has neither result nor fault. -/
def Operation.Unsettled (o : Operation) : Prop :=
  o.done = false ∧ o.result = none ∧ o.fault = none

namespace Registry

variable {r : Registry} {name m : OperationName} {e d : Entry} {o : Operation}
  {retention now : UInt64}

/-- An operation that is registered and done. -/
def Closed (r : Registry) (name : OperationName) (e : Entry) : Prop :=
  r.entryOf? name = some e ∧ e.operation.done = true

/-- Every change of an operation is refused, and so is another operation under its name.  A
refusal leaves the registry as it is. -/
structure Refuses (r : Registry) (name : OperationName) : Prop where
  register : ∀ resource p t, ∃ other,
    r.register name resource p t = (r, .aborted name resource p other)
  update : ∀ p, r.update name p = (r, false)
  complete : ∀ result now, r.complete name result now = (r, .error (.alreadyDone name))
  fail : ∀ message now, r.fail name message now = (r, .error (.alreadyDone name))
  cancel : ∀ now, r.cancel name now = (r, false)

/-- An operation stands under its name as it is, at all times while messages arrive. -/
def Keeps (r : Registry) (retention : UInt64) (name : OperationName) (o : Operation)
    (messages : List (UInt64 × Message)) : Prop :=
  ∀ before, before <+: messages → (r.after retention before).get? name = some o

/-- A message that forgets operations, perhaps also the one of a name. -/
def Message.MayForget (name : OperationName) : Message → Prop
  | .delete m => m = name
  | .sweep => True
  | _ => False

/-! ## What is refused -/

theorem Closed.refuses (h : r.Closed name e) : r.Refuses name where
  register resource p t := by
    rcases register_cases r name resource p t with ⟨-, hnew, -⟩ | ⟨-, other, heq⟩
    · rw [h.1] at hnew
      exact absurd hnew (by simp)
    · exact ⟨other, heq⟩
  update p := by
    rcases update_cases r name p with heq | ⟨d, ho, -, -⟩
    · exact heq
    · exact absurd ho (not_open_of_done h.1 h.2 d)
  complete result now := by simp [complete, h.1, h.2]
  fail message now := by simp [fail, h.1, h.2]
  cancel now := by
    rcases cancel_cases r name now with ⟨-, heq⟩ | ⟨d, ho, -⟩
    · exact heq
    · exact absurd ho (not_open_of_done h.1 h.2 d)

/-- A shutdown goes through the operations that are not done. -/
theorem Closed.not_mem_running (h : r.Closed name e) (hr : r.Agrees) : name ∉ r.running := by
  intro hmem
  obtain ⟨d, hd, hname⟩ := List.mem_map.mp hmem
  obtain ⟨hd, hopen⟩ := List.mem_filter.mp hd
  obtain ⟨⟨key, d⟩, hentry, rfl⟩ := List.mem_map.mp hd
  have hkey : r.entryOf? ⟨key⟩ = some d := (r.entries.mem_entries_iff key d).mp hentry
  have heq : name = ⟨key⟩ := hname.symm.trans (hr.name_eq hkey)
  rw [← heq, h.1] at hkey
  rw [← Option.some.inj hkey, h.2] at hopen
  exact absurd hopen (by simp)

/-! ## What is kept -/

theorem Closed.of_entryOf?_eq {r' : Registry} (h : r.Closed name e)
    (heq : r'.entryOf? name = r.entryOf? name) : r'.Closed name e :=
  ⟨heq.trans h.1, h.2⟩

theorem Closed.register (h : r.Closed name e) (resource : ResourceName) (p : Progress)
    (t : Token) : (r.register m resource p t).1.Closed name e := by
  by_cases hname : name = m
  · obtain ⟨other, heq⟩ := h.refuses.register resource p t
    rw [← hname, heq]
    exact h
  · exact h.of_entryOf?_eq (entryOf?_register_of_ne hname resource p t)

theorem Closed.update (h : r.Closed name e) (p : Progress) :
    (r.update m p).1.Closed name e := by
  by_cases hname : name = m
  · rw [← hname, h.refuses.update]
    exact h
  · exact h.of_entryOf?_eq (entryOf?_update_of_ne hname p)

theorem Closed.complete (h : r.Closed name e) (result : BuildResult) (now : UInt64) :
    (r.complete m result now).1.Closed name e := by
  by_cases hname : name = m
  · rw [← hname, h.refuses.complete]
    exact h
  · exact h.of_entryOf?_eq (entryOf?_complete_of_ne hname result now)

theorem Closed.fail (h : r.Closed name e) (message : String) (now : UInt64) :
    (r.fail m message now).1.Closed name e := by
  by_cases hname : name = m
  · rw [← hname, h.refuses.fail]
    exact h
  · exact h.of_entryOf?_eq (entryOf?_fail_of_ne hname message now)

theorem Closed.cancel (h : r.Closed name e) (m : OperationName) (now : UInt64) :
    (r.cancel m now).1.Closed name e := by
  by_cases hname : name = m
  · rw [← hname, h.refuses.cancel]
    exact h
  · exact h.of_entryOf?_eq (entryOf?_cancel_of_ne hname now)

/-- **A message keeps a closed operation or takes it away**, and the latter only if it is one
that forgets operations. -/
theorem Closed.handle (h : r.Closed name e) (retention now : UInt64) (message : Message) :
    (r.handle retention now message).1.Closed name e ∨
      message.MayForget name ∧ (r.handle retention now message).1.entryOf? name = none := by
  cases message with
  | register m resource p t => exact Or.inl (h.register resource p t)
  | update m p => exact Or.inl (h.update p)
  | complete m result => exact Or.inl (h.complete result now)
  | fail m message => exact Or.inl (h.fail message now)
  | cancel m => exact Or.inl (h.cancel m now)
  | delete m =>
    by_cases hname : name = m
    · subst hname
      exact Or.inr ⟨rfl, entryOf?_delete_self r name⟩
    · exact Or.inl (h.of_entryOf?_eq (entryOf?_delete_of_ne hname))
  | sweep =>
    have hsweep : (r.sweep retention now).1.entryOf? name =
        (some e).filter (·.isKept retention now) := by rw [entryOf?_sweep, h.1]
    cases hkept : e.isKept retention now with
    | true => exact Or.inl ⟨hsweep.trans (Option.filter_some_pos hkept), h.2⟩
    | false => exact Or.inr ⟨trivial, hsweep.trans (Option.filter_some_neg hkept)⟩
  | shutdown =>
    exact Or.inl (shutdown_induction (P := fun r => r.Closed name e)
      (fun _ m hr => hr.cancel m now) h)

theorem keeps_nil (h : r.get? name = some o) : r.Keeps retention name o [] := by
  intro before hbefore
  rw [List.prefix_nil.mp hbefore]
  exact h

theorem keeps_cons {message : Message} {messages : List (UInt64 × Message)}
    (h : r.get? name = some o)
    (hrest : (r.handle retention now message).1.Keeps retention name o messages) :
    r.Keeps retention name o ((now, message) :: messages) := by
  intro before hbefore
  rcases List.prefix_cons_iff.mp hbefore with rfl | ⟨before', rfl, hbefore'⟩
  · exact h
  · exact hrest before' hbefore'

/-- Through any messages a closed operation stands as it is, up to the first message that
takes it away. -/
theorem Closed.keeps_or_forgotten (h : r.Closed name e) (retention : UInt64)
    (messages : List (UInt64 × Message)) :
    r.Keeps retention name e.operation messages ∨
      ∃ before now message rest, messages = before ++ (now, message) :: rest ∧
        r.Keeps retention name e.operation before ∧ message.MayForget name ∧
        (r.after retention (before ++ [(now, message)])).get? name = none := by
  induction messages generalizing r with
  | nil => exact Or.inl (keeps_nil (get?_eq_some_iff.mpr ⟨e, h.1, rfl⟩))
  | cons first rest ih =>
    obtain ⟨now, message⟩ := first
    have hget : r.get? name = some e.operation := get?_eq_some_iff.mpr ⟨e, h.1, rfl⟩
    rcases h.handle retention now message with hclosed | ⟨hforget, hnone⟩
    · rcases ih hclosed with hkeeps | ⟨before, now', m, rest', rfl, hkeeps, hm, hgone⟩
      · exact Or.inl (keeps_cons hget hkeeps)
      · exact Or.inr ⟨(now, message) :: before, now', m, rest', rfl, keeps_cons hget hkeeps, hm,
          hgone⟩
    · exact Or.inr ⟨[], now, message, rest, rfl, keeps_nil hget, hforget,
        get?_eq_none_iff.mpr hnone⟩

/-- **An operation ends once, and its end stays.**  After any messages at any times, a
registered operation either has not ended and has neither result nor fault, or it is done and
has just one of them.  Once it is done, every change of it is refused and leaves the registry
as it is, a shutdown passes it by, and whatever arrives thereafter it is found under its name
to the letter, up to the deletion or the sweep that takes it away. -/
theorem settled_for_good (retention : UInt64) (messages : List (UInt64 × Message)) :
    (∀ name o, (empty.after retention messages).get? name = some o →
        o.Unsettled ∨ o.Settled) ∧
      ∀ name o, (empty.after retention messages).get? name = some o → o.done = true →
        (empty.after retention messages).Refuses name ∧
        name ∉ (empty.after retention messages).running ∧
        ∀ more, (empty.after retention messages).Keeps retention name o more ∨
          ∃ before now message rest, more = before ++ (now, message) :: rest ∧
            (empty.after retention messages).Keeps retention name o before ∧
            message.MayForget name ∧
            ((empty.after retention messages).after retention
              (before ++ [(now, message)])).get? name = none := by
  have hagrees : (empty.after retention messages).Agrees := Agrees.empty.after retention messages
  refine ⟨fun name o ho => ?_, fun name o ho hdone => ?_⟩
  · obtain ⟨e, he, rfl⟩ := get?_eq_some_iff.mp ho
    cases hd : e.operation.done with
    | false => exact Or.inl ⟨hd, (hagrees.coherent he).unsettled hd⟩
    | true => exact Or.inr ((hagrees.coherent he).settled hd)
  · obtain ⟨e, he, rfl⟩ := get?_eq_some_iff.mp ho
    have hclosed : (empty.after retention messages).Closed name e := ⟨he, hdone⟩
    exact ⟨hclosed.refuses, hclosed.not_mem_running hagrees,
      hclosed.keeps_or_forgotten retention⟩

/-- An operation is admitted and completed. -/
def completion : List (UInt64 × Message) :=
  [(1, .register ⟨"lakes/a/operations/op-1"⟩ ⟨"lakes/a"⟩ (.initial {} "." "main" 1) ⟨0⟩),
    (2, .complete ⟨"lakes/a/operations/op-1"⟩ ((Progress.initial {} "." "main" 1).result 2))]

/-- What may come too late: a second completion, a failure, a cancellation, a shutdown. -/
def tooLate : List (UInt64 × Message) :=
  [(3, .complete ⟨"lakes/a/operations/op-1"⟩ ((Progress.initial {} "." "side" 1).result 3)),
    (4, .fail ⟨"lakes/a/operations/op-1"⟩ "late"), (5, .cancel ⟨"lakes/a/operations/op-1"⟩),
    (6, .shutdown)]

/-- After a completion, what comes too late changes nothing of what is found. -/
theorem settled_for_good_of_completion :
    ∃ o, (empty.after 600000 completion).get? ⟨"lakes/a/operations/op-1"⟩ = some o ∧
      o.Settled ∧ (empty.after 600000 completion).Refuses ⟨"lakes/a/operations/op-1"⟩ ∧
      (empty.after 600000 completion).Keeps 600000 ⟨"lakes/a/operations/op-1"⟩ o tooLate := by
  obtain ⟨hends, hstays⟩ := settled_for_good 600000 completion
  obtain ⟨hrefuses, -, hkept⟩ := hstays ⟨"lakes/a/operations/op-1"⟩ _ rfl rfl
  refine ⟨_, rfl, ?_, hrefuses, ?_⟩
  · rcases hends ⟨"lakes/a/operations/op-1"⟩ _ rfl with hopen | hsettled
    · exact absurd hopen.1 Bool.noConfusion
    · exact hsettled
  · rcases hkept tooLate with hkeeps | ⟨before, now, message, rest, hsplit, -, hforget, -⟩
    · exact hkeeps
    · -- none of the four messages forgets an operation
      have hmem : (now, message) ∈ tooLate := by
        rw [hsplit]
        exact List.mem_append_right _ List.mem_cons_self
      have hnone : ∀ x ∈ tooLate, ¬ x.2.MayForget ⟨"lakes/a/operations/op-1"⟩ := by
        simp [tooLate, Message.MayForget]
      exact absurd hforget (hnone _ hmem)

end Registry
end ProtoBuild
