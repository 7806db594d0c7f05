import ProtoBuild.Proofs.Registry.Agreement

/-!
# A resource changes hands only with a tripped token

A registry gives a resource to the next operation as soon as the present one is cancelled
or deleted.  The build of the present one may then still be at work: it learns that it
should stop from its token alone.  So whether two builds act on a resource is decided by
the entries and the tokens together.

`Guards` says what a token stands for while its build is at work: the operation is open on
its resource and carries the token, or the token is tripped.  A registry that frees the
resource trips the token with the same change, so cancellation and deletion lead from the
one to the other and nothing leads to neither.

## What does not keep it

A completion and a failure free the resource and trip nothing: they are for the worker
itself, which stops thereafter.  So they keep what holds of other names only
(`Guards.complete`, `Guards.fail`), and whoever uses `Guards` has to know who sends them.
A sweep keeps it because a registry that agrees with itself does not forget an operation
that is not done.
-/

namespace ProtoBuild
namespace Registry

/-- The operation of a name is open on a resource and carries a token, or the token is
tripped. -/
def Guards (r : Registry) (name : OperationName) (token : Token) (resource : ResourceName) :
    Prop :=
  r.tripped token = true ∨
    ∃ e, r.Open name e ∧ e.token = token ∧ e.operation.resource = resource

namespace Guards

variable {r r' : Registry} {name m : OperationName} {token : Token} {resource s : ResourceName}

/-- What holds of a token goes on to hold if no token becomes untripped and the entry of its
operation stays what it is. -/
theorem of_entryOf?_eq (h : r.Guards name token resource)
    (htripped : r.tripped token = true → r'.tripped token = true)
    (hentry : r'.entryOf? name = r.entryOf? name) : r'.Guards name token resource := by
  rcases h with h | ⟨e, ho, htoken, hres⟩
  · exact Or.inl (htripped h)
  · refine Or.inr ⟨e, ⟨?_, ho.2⟩, htoken, hres⟩
    rw [hentry]
    exact ho.1

/-- Tripping the token of the open entry of a name is enough, whatever becomes of the
entry. -/
theorem of_trip {e : Entry} (h : r.Guards name token resource) (ho : r.Open name e)
    (htripped : r'.tripped = (r.trip e.token).tripped) : r'.Guards name token resource := by
  refine Or.inl ?_
  rw [htripped, tripped_trip]
  rcases h with h | ⟨d, hd, htoken, -⟩
  · exact Or.inr h
  · rw [← htoken, hd.unique ho]
    exact Or.inl rfl

/-- A new operation takes no name and no resource away from another. -/
theorem register (h : r.Guards name token resource) (p : Progress) (t : Token) :
    (r.register m s p t).1.Guards name token resource := by
  rcases register_cases r m s p t with ⟨-, hnew, heq⟩ | ⟨-, other, heq⟩
  · rw [heq]
    rcases h with h | ⟨e, ho, he⟩
    · exact Or.inl h
    · have hne : name ≠ m := by
        rintro rfl
        exact not_open_of_none hnew e ho
      refine Or.inr ⟨e, ⟨?_, ho.2⟩, he⟩
      rw [entryOf?_addEntry, if_neg hne]
      exact ho.1
  · rw [heq]
    exact h

theorem update (h : r.Guards name token resource) (p : Progress) :
    (r.update m p).1.Guards name token resource := by
  rcases update_cases r m p with heq | ⟨d, hd, -, heq⟩
  · rw [heq]
    exact h
  · rw [heq]
    by_cases hname : name = m
    · subst hname
      rcases h with h | ⟨e, ho, he⟩
      · exact Or.inl h
      · obtain rfl := ho.unique hd
        refine Or.inr ⟨e.withProgress p, ⟨?_, ho.2⟩, he⟩
        rw [entryOf?_setEntry, if_pos rfl]
    · refine h.of_entryOf?_eq id ?_
      rw [entryOf?_setEntry, if_neg hname]

theorem complete (h : r.Guards name token resource) (hname : name ≠ m) (result : BuildResult)
    (now : UInt64) : (r.complete m result now).1.Guards name token resource := by
  refine h.of_entryOf?_eq (fun ht => ?_) (entryOf?_complete_of_ne hname result now)
  rcases complete_cases r m result now with ⟨-, err, heq⟩ | ⟨e, -, heq⟩
  · rw [heq]
    exact ht
  · rw [heq, tripped_finish]
    exact ht

theorem fail (h : r.Guards name token resource) (hname : name ≠ m) (message : String)
    (now : UInt64) : (r.fail m message now).1.Guards name token resource := by
  refine h.of_entryOf?_eq (fun ht => ?_) (entryOf?_fail_of_ne hname message now)
  rcases fail_cases r m message now with ⟨-, err, heq⟩ | ⟨e, -, heq⟩
  · rw [heq]
    exact ht
  · rw [heq, tripped_finish]
    exact ht

theorem cancel (h : r.Guards name token resource) (m : OperationName) (now : UInt64) :
    (r.cancel m now).1.Guards name token resource := by
  rcases cancel_cases r m now with ⟨-, heq⟩ | ⟨e, ho, heq⟩
  · rw [heq]
    exact h
  · by_cases hname : name = m
    · subst hname
      refine h.of_trip ho ?_
      rw [heq, tripped_finish]
    · refine h.of_entryOf?_eq (fun ht => ?_) (entryOf?_cancel_of_ne hname now)
      rw [heq, tripped_finish, tripped_trip]
      exact Or.inr ht

theorem delete (h : r.Guards name token resource) (m : OperationName) :
    (r.delete m).1.Guards name token resource := by
  rcases delete_cases r m with ⟨-, heq⟩ | ⟨e, he, hd, heq⟩ | ⟨e, ho, heq⟩
  · rw [heq]
    exact h
  · rcases h with h | ⟨d, ho, hd'⟩
    · refine Or.inl ?_
      rw [heq, tripped_release, tripped_eraseEntry]
      exact h
    · -- an operation that is done is not the open one
      have hname : name ≠ m := by
        rintro rfl
        exact not_open_of_done he hd d ho
      refine Guards.of_entryOf?_eq (Or.inr ⟨d, ho, hd'⟩) (fun ht => ?_)
        (entryOf?_delete_of_ne hname)
      rw [heq, tripped_release, tripped_eraseEntry]
      exact ht
  · by_cases hname : name = m
    · subst hname
      refine h.of_trip ho ?_
      rw [heq, tripped_release, tripped_eraseEntry]
    · refine h.of_entryOf?_eq (fun ht => ?_) (entryOf?_delete_of_ne hname)
      rw [heq, tripped_release, tripped_eraseEntry, tripped_trip]
      exact Or.inr ht

theorem sweep (h : r.Guards name token resource) (hr : r.Agrees) (retention now : UInt64) :
    (r.sweep retention now).1.Guards name token resource := by
  rcases h with h | ⟨e, ho, he⟩
  · exact Or.inl h
  · exact Or.inr ⟨e, (hr.open_sweep_iff retention now).mpr ho, he⟩

theorem shutdown (h : r.Guards name token resource) (now : UInt64) :
    (r.shutdown now).1.Guards name token resource :=
  shutdown_induction (P := fun r => r.Guards name token resource)
    (fun _ m hr => Guards.cancel hr m now) h

/-- **Every message keeps it but a completion or a failure of the operation itself.** -/
theorem handle (h : r.Guards name token resource) (hr : r.Agrees) (retention now : UInt64)
    {message : Message} (hcomplete : ∀ result, message ≠ .complete name result)
    (hfail : ∀ text, message ≠ .fail name text) :
    (r.handle retention now message).1.Guards name token resource := by
  cases message with
  | register m s p t => exact h.register p t
  | update m p => exact h.update p
  | complete m result =>
    refine h.complete ?_ result now
    rintro rfl
    exact hcomplete result rfl
  | fail m text =>
    refine h.fail ?_ text now
    rintro rfl
    exact hfail text rfl
  | cancel m => exact h.cancel m now
  | delete m => exact h.delete m
  | sweep => exact h.sweep hr retention now
  | shutdown => exact h.shutdown now

end Guards
end Registry
end ProtoBuild
