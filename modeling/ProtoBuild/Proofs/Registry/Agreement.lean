import ProtoBuild.Proofs.Registry.Changes

/-!
# The two maps of a registry agree

A registry keeps its entries by name and, beside them, the active operations by resource.
The second map repeats what the first one says, and nothing but the changes keeps them
together: a resource that is not given back is blocked for ever, and one that is given back
too early admits two builds.

`Agrees` is what the changes keep.  Two of them touch both maps at once, an end and a
deletion; `Agrees.replace` and `Agrees.remove` are the arguments for these, and every
change of a known entry is one of them.  `Agrees.after` then goes through a list of
messages.

## Why an entry knows whether it is whole

A sweep looks at the time of the end alone, and the active map at whether the operation is
done.  A sweep takes no active operation away only because the two go together, so
`Entry.Coherent` is a part of the invariant and not a remark beside it.
-/

namespace ProtoBuild

/-- An operation has ended: it is done, with a result or a fault but not with both. -/
def Operation.Settled (o : Operation) : Prop :=
  o.done = true ∧ (o.result.isSome = true ↔ o.fault = none)

/-- What holds of an entry wherever it stands: the time of its end is known exactly if its
operation is done, and what the operation has come to is there exactly then. -/
structure Entry.Coherent (e : Entry) : Prop where
  ended_iff : e.endedAt.isSome = true ↔ e.operation.done = true
  unsettled : e.operation.done = false → e.operation.result = none ∧ e.operation.fault = none
  settled : e.operation.done = true → e.operation.Settled

namespace Registry

variable {r r' : Registry} {name m : OperationName} {resource : ResourceName} {e e' d : Entry}

/-- The entries and the active operations of a registry agree. -/
structure Agrees (r : Registry) : Prop where
  name_eq : ∀ {name e}, r.entryOf? name = some e → e.operation.name = name
  coherent : ∀ {name e}, r.entryOf? name = some e → e.Coherent
  active_iff : ∀ {resource name}, r.active? resource = some name ↔
    ∃ e, r.Open name e ∧ e.operation.resource = resource

theorem Open.unique (h : r.Open name e) (h' : r.Open name d) : e = d :=
  Option.some.inj (h.1.symm.trans h'.1)

namespace Agrees

/-- At most one operation that is not done acts on a resource. -/
theorem open_unique (h : r.Agrees) (hn : r.Open name e) (hm : r.Open m d)
    (hres : e.operation.resource = d.operation.resource) : name = m := by
  have hname : r.active? d.operation.resource = some name := h.active_iff.mpr ⟨e, hn, hres⟩
  have hm' : r.active? d.operation.resource = some m := h.active_iff.mpr ⟨d, hm, rfl⟩
  exact Option.some.inj (hname.symm.trans hm')

theorem active?_eq (h : r.Agrees) (ho : r.Open name e) :
    r.active? e.operation.resource = some name :=
  h.active_iff.mpr ⟨e, ho, rfl⟩

/-- No resource is free or busy because of an operation that is done or unknown. -/
theorem active?_ne (h : r.Agrees) (hn : ∀ e, ¬ r.Open name e) :
    r.active? resource ≠ some name := by
  intro ha
  obtain ⟨e, ho, -⟩ := h.active_iff.mp ha
  exact hn e ho

theorem empty : Registry.empty.Agrees where
  name_eq h := by simp at h
  coherent h := by simp at h
  active_iff {resource name} := by simp [Open]

/-! ## The arguments for a known entry -/

/-- The entry of an operation that is not done is replaced; if its operation is done
thereafter, its resource is free. -/
theorem replace (h : r.Agrees) (ho : r.Open name e)
    (hentry : ∀ m, r'.entryOf? m = if m = name then some e' else r.entryOf? m)
    (hname : e'.operation.name = e.operation.name)
    (hres : e'.operation.resource = e.operation.resource) (hc : e'.Coherent)
    (hactive : ∀ s, r'.active? s =
      if e'.operation.done = true ∧ s = e.operation.resource then none else r.active? s) :
    r'.Agrees where
  name_eq {m d} hd := by
    rw [hentry] at hd
    split at hd
    · rename_i hm
      rw [← Option.some.inj hd, hname, hm]
      exact h.name_eq ho.1
    · exact h.name_eq hd
  coherent {m d} hd := by
    rw [hentry] at hd
    split at hd
    · rw [← Option.some.inj hd]
      exact hc
    · exact h.coherent hd
  active_iff {s m} := by
    by_cases hm : m = name
    · -- the replaced entry is open exactly if it is not done
      subst hm
      have hopen : (∃ d, r'.Open m d ∧ d.operation.resource = s) ↔
          e'.operation.done = false ∧ e.operation.resource = s := by
        simp [Open, hentry, hres, and_assoc]
      have hold : r.active? s = some m ↔ e.operation.resource = s := by
        rw [h.active_iff]
        exact ⟨fun ⟨d, hd, hs⟩ => (ho.unique hd) ▸ hs, fun hs => ⟨e, ho, hs⟩⟩
      rw [hopen, hactive]
      by_cases hs : s = e.operation.resource
      · cases e'.operation.done <;> simp [hs, h.active?_eq ho]
      · rw [if_neg (fun hc => hs hc.2), hold]
        simp [Ne.symm hs]
    · have hopen : (∃ d, r'.Open m d ∧ d.operation.resource = s) ↔
          ∃ d, r.Open m d ∧ d.operation.resource = s := by
        simp [Open, hentry, hm]
      rw [hopen, ← h.active_iff, hactive]
      split
      · -- the resource that is set free was that of the replaced entry
        rename_i hs
        rw [hs.2, h.active?_eq ho]
        simp [Ne.symm hm]
      · exact Iff.rfl

/-- The entry of an operation is taken away, and with it its hold on its resource. -/
theorem remove (h : r.Agrees)
    (hentry : ∀ m, r'.entryOf? m = if m = name then none else r.entryOf? m)
    (he : r.entryOf? name = some e)
    (hactive : ∀ s, r'.active? s =
      if s = e.operation.resource ∧ r.active? s = some name then none else r.active? s) :
    r'.Agrees where
  name_eq {m d} hd := by
    rw [hentry] at hd
    split at hd
    · simp at hd
    · exact h.name_eq hd
  coherent {m d} hd := by
    rw [hentry] at hd
    split at hd
    · simp at hd
    · exact h.coherent hd
  active_iff {s m} := by
    by_cases hm : m = name
    · subst hm
      have hopen : ¬ ∃ d, r'.Open m d ∧ d.operation.resource = s := by
        simp [Open, hentry]
      have hfree : r'.active? s ≠ some m := by
        rw [hactive]
        split
        · simp
        · rename_i hs
          intro ha
          obtain ⟨d, hd, hdres⟩ := h.active_iff.mp ha
          have hde : d = e := Option.some.inj (hd.1.symm.trans he)
          exact hs ⟨hdres ▸ hde ▸ rfl, ha⟩
      simp [hopen, hfree]
    · have hopen : (∃ d, r'.Open m d ∧ d.operation.resource = s) ↔
          ∃ d, r.Open m d ∧ d.operation.resource = s := by
        simp [Open, hentry, hm]
      rw [hopen, ← h.active_iff, hactive]
      split
      · rename_i hs
        rw [hs.2]
        simp [Ne.symm hm]
      · exact Iff.rfl

/-- A new entry on a free resource. -/
theorem add (h : r.Agrees) (hfree : r.active? resource = none)
    (hnew : r.entryOf? name = none) (hname : e.operation.name = name)
    (hres : e.operation.resource = resource) (hopen : e.operation.done = false)
    (hc : e.Coherent) : (r.addEntry name resource e).Agrees where
  name_eq {m d} hd := by
    rw [entryOf?_addEntry] at hd
    split at hd
    · rename_i hm
      rw [← Option.some.inj hd, hname, hm]
    · exact h.name_eq hd
  coherent {m d} hd := by
    rw [entryOf?_addEntry] at hd
    split at hd
    · rw [← Option.some.inj hd]
      exact hc
    · exact h.coherent hd
  active_iff {s m} := by
    rw [active?_addEntry]
    by_cases hm : m = name
    · subst hm
      have hopen' : (∃ d, (r.addEntry m resource e).Open m d ∧ d.operation.resource = s) ↔
          s = resource := by
        constructor
        · rintro ⟨d, ⟨hd, -⟩, rfl⟩
          rw [entryOf?_addEntry, if_pos rfl] at hd
          rw [← Option.some.inj hd, hres]
        · rintro rfl
          exact ⟨e, ⟨by rw [entryOf?_addEntry, if_pos rfl], hopen⟩, hres⟩
      rw [hopen']
      split
      · simp [*]
      · rename_i hs
        have hne : r.active? s ≠ some m := h.active?_ne (not_open_of_none hnew)
        simp [hs, hne]
    · have hold : (∃ d, (r.addEntry name resource e).Open m d ∧ d.operation.resource = s) ↔
          r.active? s = some m := by
        simp [h.active_iff, Open, entryOf?_addEntry, hm]
      rw [hold]
      split
      · rename_i hs
        rw [hs, hfree]
        simp [Ne.symm hm]
      · exact Iff.rfl

end Agrees

end Registry

/-! ## Every change keeps the agreement -/

namespace Entry

variable {e : Entry}

theorem coherent_pending (name : OperationName) (resource : ResourceName) (p : Progress)
    (t : Token) : ({ operation := .pending name resource p, token := t } : Entry).Coherent where
  ended_iff := by simp [Operation.pending]
  unsettled _ := ⟨rfl, rfl⟩
  settled h := by simp [Operation.pending] at h

theorem Coherent.withProgress (h : e.Coherent) (p : Progress) : (e.withProgress p).Coherent where
  ended_iff := h.ended_iff
  unsettled := h.unsettled
  settled := h.settled

theorem coherent_ended (p : Progress) {result : Option BuildResult} {fault : Option Fault}
    (hone : result.isSome = true ↔ fault = none) (now : UInt64) :
    (e.ended p result fault now).Coherent where
  ended_iff := by simp [ended]
  unsettled h := by simp [ended] at h
  settled _ := ⟨rfl, hone⟩

end Entry

namespace Registry

variable {r : Registry} {name : OperationName} {e : Entry}

theorem Agrees.finish (h : r.Agrees) (ho : r.Open name e) (p : Progress)
    {result : Option BuildResult} {fault : Option Fault}
    (hone : result.isSome = true ↔ fault = none) (now : UInt64) :
    (r.finish name e p result fault now).Agrees := by
  refine h.replace ho (fun m => entryOf?_finish ..) rfl rfl (Entry.coherent_ended p hone now) ?_
  intro s
  rw [active?_finish]
  by_cases hs : s = e.operation.resource
  · simp [hs, h.active?_eq ho, Entry.ended]
  · simp [hs]

theorem Agrees.trip (h : r.Agrees) (t : Token) : (r.trip t).Agrees :=
  ⟨h.name_eq, h.coherent, h.active_iff⟩

theorem Agrees.register (h : r.Agrees) (resource : ResourceName) (p : Progress) (t : Token) :
    (r.register name resource p t).1.Agrees := by
  rcases register_cases r name resource p t with ⟨hfree, hnew, heq⟩ | ⟨-, other, heq⟩
  · rw [heq]
    exact h.add hfree hnew rfl rfl rfl (Entry.coherent_pending name resource p t)
  · rw [heq]
    exact h

theorem Agrees.update (h : r.Agrees) (p : Progress) : (r.update name p).1.Agrees := by
  rcases update_cases r name p with heq | ⟨e, ho, -, heq⟩
  · rw [heq]
    exact h
  · rw [heq]
    refine h.replace ho (fun m => entryOf?_setEntry ..) rfl rfl
      ((h.coherent ho.1).withProgress p) fun s => ?_
    simp [Entry.withProgress, ho.2]

theorem Agrees.complete (h : r.Agrees) (result : BuildResult) (now : UInt64) :
    (r.complete name result now).1.Agrees := by
  rcases complete_cases r name result now with ⟨-, err, heq⟩ | ⟨e, ho, heq⟩
  · rw [heq]
    exact h
  · rw [heq]
    exact h.finish ho _ (by simp [((h.coherent ho.1).unsettled ho.2).2]) now

theorem Agrees.fail (h : r.Agrees) (message : String) (now : UInt64) :
    (r.fail name message now).1.Agrees := by
  rcases fail_cases r name message now with ⟨-, err, heq⟩ | ⟨e, ho, heq⟩
  · rw [heq]
    exact h
  · rw [heq]
    exact h.finish ho _ (by simp [((h.coherent ho.1).unsettled ho.2).1]) now

theorem Agrees.cancel (h : r.Agrees) (name : OperationName) (now : UInt64) :
    (r.cancel name now).1.Agrees := by
  rcases cancel_cases r name now with ⟨-, heq⟩ | ⟨e, ho, heq⟩
  · rw [heq]
    exact h
  · rw [heq]
    exact (h.trip e.token).finish ho _ (by simp [((h.coherent ho.1).unsettled ho.2).1]) now

theorem Agrees.delete (h : r.Agrees) (name : OperationName) : (r.delete name).1.Agrees := by
  rcases delete_cases r name with ⟨-, heq⟩ | ⟨e, he, -, heq⟩ | ⟨e, ho, heq⟩
  · rw [heq]
    exact h
  · rw [heq]
    exact h.remove (fun m => by rw [entryOf?_release, entryOf?_eraseEntry]) he
      fun s => active?_release ..
  · rw [heq]
    exact h.remove (fun m => by rw [entryOf?_release, entryOf?_eraseEntry, entryOf?_trip]) ho.1
      fun s => active?_release ..

/-- An operation that is not done has not ended, so no sweep takes it away. -/
theorem Agrees.open_sweep_iff (h : r.Agrees) (retention now : UInt64) :
    (r.sweep retention now).1.Open name e ↔ r.Open name e := by
  simp only [Open, entryOf?_sweep, Option.filter_eq_some_iff]
  refine ⟨fun hd => ⟨hd.1.1, hd.2⟩, fun hd => ⟨⟨hd.1, ?_⟩, hd.2⟩⟩
  have hnone : e.endedAt = none := by
    have hiff := (h.coherent hd.1).ended_iff
    rw [hd.2] at hiff
    simpa using hiff
  simp [Entry.isKept, hnone]

theorem Agrees.sweep (h : r.Agrees) (retention now : UInt64) :
    (r.sweep retention now).1.Agrees where
  name_eq {m d} hd := by
    rw [entryOf?_sweep, Option.filter_eq_some_iff] at hd
    exact h.name_eq hd.1
  coherent {m d} hd := by
    rw [entryOf?_sweep, Option.filter_eq_some_iff] at hd
    exact h.coherent hd.1
  active_iff {s m} := by
    simp only [h.open_sweep_iff, active?_sweep]
    exact h.active_iff

/-- **Every message keeps the agreement.** -/
theorem Agrees.handle (h : r.Agrees) (retention now : UInt64) (m : Message) :
    (r.handle retention now m).1.Agrees := by
  cases m with
  | register name resource p t => exact h.register resource p t
  | update name p => exact h.update p
  | complete name result => exact h.complete result now
  | fail name message => exact h.fail message now
  | cancel name => exact h.cancel name now
  | delete name => exact h.delete name
  | sweep => exact h.sweep retention now
  | shutdown => exact shutdown_induction (fun r name hr => hr.cancel name now) h

/-! ## After any messages -/

/-- The registry after messages, each with the time at which it arrives. -/
def after (r : Registry) (retention : UInt64) (messages : List (UInt64 × Message)) : Registry :=
  messages.foldl (fun r m => (r.handle retention m.1 m.2).1) r

/-- A shutdown is a list of cancellations.  So one that sees each of them at a time of its own,
or that others interrupt, is a list of messages as well. -/
theorem shutdown_eq_after (r : Registry) (retention now : UInt64) :
    (r.shutdown now).1 = r.after retention (r.running.map fun name => (now, .cancel name)) := by
  have hall : ∀ names r, (cancelAll now names r).1 =
      after r retention (names.map fun name => (now, .cancel name)) := by
    intro names
    induction names with
    | nil => exact fun r => rfl
    | cons name rest ih => exact fun r => ih (r.cancel name now).1
  exact hall r.running r

theorem Agrees.after (h : r.Agrees) (retention : UInt64) (messages : List (UInt64 × Message)) :
    (r.after retention messages).Agrees := by
  induction messages generalizing r with
  | nil => exact h
  | cons m rest ih => exact ih (h.handle retention m.1 m.2)

/-- Whether an operation would be admitted: its name is new, and no operation that is not
done acts on its resource. -/
def Admissible (r : Registry) (name : OperationName) (resource : ResourceName) : Prop :=
  r.entryOf? name = none ∧ ∀ m e, r.Open m e → e.operation.resource ≠ resource

theorem Agrees.admissible_iff (h : r.Agrees) {resource : ResourceName} :
    r.Admissible name resource ↔ r.active? resource = none ∧ r.entryOf? name = none := by
  rw [Admissible, and_comm]
  refine and_congr_left fun _ => ?_
  constructor
  · intro hfree
    cases ha : r.active? resource with
    | none => rfl
    | some m =>
      obtain ⟨e, ho, hres⟩ := h.active_iff.mp ha
      exact absurd hres (hfree m e ho)
  · rintro ha m e ho rfl
    rw [h.active?_eq ho] at ha
    simp at ha

/-- What admission does: an operation that is admissible is registered, not done and active
on its resource, and nothing else changes; any other is answered as aborted, and nothing
changes at all. -/
structure Admits (r : Registry) (name : OperationName) (resource : ResourceName)
    (p : Progress) (t : Token) (r' : Registry) (o : Operation) : Prop where
  admitted_iff : o.done = false ↔ r.Admissible name resource
  admitted : r.Admissible name resource →
    o = .pending name resource p ∧
      (∀ m, r'.entryOf? m =
        if m = name then some { operation := o, token := t } else r.entryOf? m) ∧
      (∀ s, r'.active? s = if s = resource then some name else r.active? s) ∧
      r'.tripped = r.tripped
  refused : ¬ r.Admissible name resource →
    r' = r ∧ o.done = true ∧ o.result = none ∧ o.fault.map Fault.code = some .aborted

theorem Agrees.admits (h : r.Agrees) (name : OperationName) (resource : ResourceName)
    (p : Progress) (t : Token) :
    r.Admits name resource p t (r.register name resource p t).1
      (r.register name resource p t).2 := by
  rcases register_cases r name resource p t with
    ⟨hfree, hnew, heq⟩ | ⟨hbusy, other, heq⟩
  · have hadm : r.Admissible name resource := h.admissible_iff.mpr ⟨hfree, hnew⟩
    rw [heq]
    exact
      { admitted_iff := iff_of_true rfl hadm
        admitted := fun _ =>
          ⟨rfl, fun m => entryOf?_addEntry .., fun s => active?_addEntry .., rfl⟩
        refused := fun hn => absurd hadm hn }
  · have hnot : ¬ r.Admissible name resource := fun hadm => hbusy (h.admissible_iff.mp hadm)
    rw [heq]
    exact
      { admitted_iff := iff_of_false (by simp [Operation.aborted]) hnot
        admitted := fun hadm => absurd hadm hnot
        refused := fun _ => ⟨rfl, rfl, rfl, rfl⟩ }

/-- **The two maps agree after any messages.**  Whatever messages arrive at whatever times, a
resource is active under a name exactly if that name is of a registered operation on it that
is not done; each entry stands under the name of its operation and knows the time of its
end exactly if its operation is done.  So at most one operation that is not done acts on a
resource, and the next operation is admitted exactly if it is the first on its resource and
its name is new. -/
theorem agrees_and_admits_after (retention : UInt64) (messages : List (UInt64 × Message)) :
    (empty.after retention messages).Agrees ∧
      (∀ name m e d, (empty.after retention messages).Open name e →
        (empty.after retention messages).Open m d →
        e.operation.resource = d.operation.resource → name = m) ∧
      ∀ name resource p t,
        (empty.after retention messages).Admits name resource p t
          ((empty.after retention messages).register name resource p t).1
          ((empty.after retention messages).register name resource p t).2 := by
  have h : (empty.after retention messages).Agrees := Agrees.empty.after retention messages
  exact ⟨h, fun name m e d hn hm hres => h.open_unique hn hm hres,
    fun name resource p t => h.admits name resource p t⟩

end Registry
end ProtoBuild
