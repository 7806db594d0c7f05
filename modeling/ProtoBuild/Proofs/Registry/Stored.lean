import ProtoBuild.Proofs.Progress.Onward
import ProtoBuild.Proofs.Registry.Changes

/-!
# What becomes of a stored progress

Two messages bring the registry a progress from outside, and it is stored as it comes; in all
others the registry itself moves the stage of what it has.  So the progress under a name moves
forward if what is brought is further on than what is there (`exists_entry_before`), and this
is all that the registry adds.

Nothing comes to be known but by an admission, and nothing that is open after a message that
brings no progress has been changed by it (`Open.before`).
-/

namespace ProtoBuild
namespace Registry

variable {r : Registry} {name m : OperationName} {e d : Entry} {p : Progress}
  {message : Message} {retention now : UInt64}

/-- A message brings a progress for an operation. -/
inductive Message.Brings (name : OperationName) : Message → Progress → Prop
  | update (p : Progress) : Brings name (.update name p) p
  | complete (result : BuildResult) : Brings name (.complete name result) result.progress

/-- A message that admits no operation. -/
def Message.AdmitsNone (message : Message) : Prop :=
  ∀ name resource p t, message ≠ .register name resource p t

/-- The end of an operation moves the entry to the progress of the end. -/
theorem entry_before_finish (ho : r.Open m d) {result : Option BuildResult}
    {fault : Option Fault} (hp : name = m → d.operation.progress.Onward p)
    (h : (r.finish m d p result fault now).entryOf? name = some e) :
    ∃ d, r.entryOf? name = some d ∧ d.operation.progress.Onward e.operation.progress := by
  rw [entryOf?_finish] at h
  split at h
  · rename_i hname
    subst hname
    rw [← Option.some.inj h]
    exact ⟨d, ho.1, hp rfl⟩
  · exact ⟨e, h, .refl _⟩

theorem entry_before_cancel (h : (r.cancel m now).1.entryOf? name = some e) :
    ∃ d, r.entryOf? name = some d ∧ d.operation.progress.Onward e.operation.progress := by
  rcases cancel_cases r m now with ⟨-, heq⟩ | ⟨d, ho, heq⟩
  · rw [heq] at h
    exact ⟨e, h, .refl _⟩
  · rw [heq] at h
    exact entry_before_finish (r := r.trip d.token) ho
      (fun _ => d.operation.progress.onward_advance _) h

/-- What is there after a removal was there before. -/
theorem entry_before_delete (h : (r.delete m).1.entryOf? name = some e) :
    r.entryOf? name = some e := by
  by_cases hname : name = m
  · subst hname
    rw [entryOf?_delete_self] at h
    exact nomatch h
  · rw [entryOf?_delete_of_ne hname] at h
    exact h

theorem entry_before_sweep (h : (r.sweep retention now).1.entryOf? name = some e) :
    r.entryOf? name = some e := by
  rw [entryOf?_sweep] at h
  exact (Option.filter_eq_some_iff.mp h).1

/-- **What is stored moves forward**, if what is brought to an open operation does.  An entry
that is there after a message that admits no operation was there before. -/
theorem exists_entry_before (hmessage : message.AdmitsNone)
    (hbrings : ∀ d p, r.Open name d → message.Brings name p → d.operation.progress.Onward p)
    (h : (r.handle retention now message).1.entryOf? name = some e) :
    ∃ d, r.entryOf? name = some d ∧ d.operation.progress.Onward e.operation.progress := by
  cases message with
  | register m resource p t => exact absurd rfl (hmessage m resource p t)
  | update m p =>
    rcases update_cases r m p with heq | ⟨d, ho, -, heq⟩
    · rw [handle, heq] at h
      exact ⟨e, h, .refl _⟩
    · rw [handle, heq, entryOf?_setEntry] at h
      split at h
      · rename_i hname
        subst hname
        rw [← Option.some.inj h]
        exact ⟨d, ho.1, hbrings d p ho (.update p)⟩
      · exact ⟨e, h, .refl _⟩
  | complete m result =>
    rcases complete_cases r m result now with ⟨-, err, heq⟩ | ⟨d, ho, heq⟩
    · rw [handle, heq] at h
      exact ⟨e, h, .refl _⟩
    · rw [handle, heq] at h
      refine entry_before_finish ho ?_ h
      rintro rfl
      exact hbrings d _ ho (.complete result)
  | fail m text =>
    rcases fail_cases r m text now with ⟨-, err, heq⟩ | ⟨d, ho, heq⟩
    · rw [handle, heq] at h
      exact ⟨e, h, .refl _⟩
    · rw [handle, heq] at h
      exact entry_before_finish ho (fun _ => d.operation.progress.onward_advance _) h
  | cancel m => exact entry_before_cancel h
  | delete m => exact ⟨e, entry_before_delete h, .refl _⟩
  | sweep => exact ⟨e, entry_before_sweep h, .refl _⟩
  | shutdown =>
    have hall : ∀ e, (r.shutdown now).1.entryOf? name = some e →
        ∃ d, r.entryOf? name = some d ∧ d.operation.progress.Onward e.operation.progress := by
      refine shutdown_induction (P := fun r' => ∀ e, r'.entryOf? name = some e →
        ∃ d, r.entryOf? name = some d ∧ d.operation.progress.Onward e.operation.progress)
        (fun r' m ih e h => ?_) fun e h => ⟨e, h, .refl _⟩
      obtain ⟨d, hd, hto⟩ := entry_before_cancel h
      obtain ⟨c, hc, hto'⟩ := ih d hd
      exact ⟨c, hc, hto'.trans hto⟩
    exact hall e h

/-! ## What is open -/

/-- An operation that is open after an end was open before and is another one. -/
theorem Open.before_finish {result : Option BuildResult} {fault : Option Fault}
    (h : (r.finish m d p result fault now).Open name e) : r.Open name e := by
  have hne : name ≠ m := by
    rintro rfl
    exact not_open_finish r name d p result fault now e h
  exact ⟨(entryOf?_finish_of_ne hne d p result fault now).symm.trans h.1, h.2⟩

theorem Open.before_cancel (h : (r.cancel m now).1.Open name e) : r.Open name e := by
  rcases cancel_cases r m now with ⟨-, heq⟩ | ⟨d, -, heq⟩
  · rw [heq] at h
    exact h
  · rw [heq] at h
    exact h.before_finish

/-- An operation that is open after a progress was brought was open before, and has this
progress unless its stage could not go there. -/
theorem Open.before_update (h : (r.update m p).1.Open m e) :
    ∃ d, r.Open m d ∧
      (d.operation.progress.stage.canAdvanceTo p.stage = true → e.operation.progress = p) := by
  rcases update_cases r m p with heq | ⟨d, ho, -, heq⟩
  · rw [heq] at h
    -- what is brought to an open operation is refused only because of its stage
    refine ⟨e, h, fun hcan => ?_⟩
    simp [update, h.1, h.2, hcan] at heq
  · rw [heq] at h
    have hentry := h.1
    rw [entryOf?_setEntry, if_pos rfl] at hentry
    refine ⟨d, ho, fun _ => ?_⟩
    rw [← Option.some.inj hentry]
    rfl

/-- **What is open was open before**, and unchanged, if the message admits no operation and
brings no progress to one that goes on. -/
theorem Open.before (hmessage : message.AdmitsNone)
    (hupdate : ∀ p, message ≠ .update name p)
    (h : (r.handle retention now message).1.Open name e) : r.Open name e := by
  cases message with
  | register m resource p t => exact absurd rfl (hmessage m resource p t)
  | update m p =>
    have hne : name ≠ m := by
      rintro rfl
      exact hupdate p rfl
    exact ⟨(entryOf?_update_of_ne hne p).symm.trans h.1, h.2⟩
  | complete m result =>
    rcases complete_cases r m result now with ⟨-, err, heq⟩ | ⟨d, -, heq⟩
    · rw [handle, heq] at h
      exact h
    · rw [handle, heq] at h
      exact h.before_finish
  | fail m text =>
    rcases fail_cases r m text now with ⟨-, err, heq⟩ | ⟨d, -, heq⟩
    · rw [handle, heq] at h
      exact h
    · rw [handle, heq] at h
      exact h.before_finish
  | cancel m => exact h.before_cancel
  | delete m => exact ⟨entry_before_delete h.1, h.2⟩
  | sweep => exact ⟨entry_before_sweep h.1, h.2⟩
  | shutdown =>
    have hall : ∀ e, (r.shutdown now).1.Open name e → r.Open name e :=
      shutdown_induction (P := fun r' => ∀ e, r'.Open name e → r.Open name e)
        (fun _ _ ih e h => ih e h.before_cancel) fun _ h => h
    exact hall e h

/-! ## How an operation comes to be done -/

/-- An open entry is ended by a message and becomes another one. -/
inductive Ends (name : OperationName) (d : Entry) (now : UInt64) : Message → Entry → Prop
  | complete (result : BuildResult) :
      Ends name d now (.complete name result)
        (d.ended result.progress (some result) d.operation.fault now)
  | fail (text : String) :
      Ends name d now (.fail name text)
        (d.ended (d.operation.progress.advance .failed).1 d.operation.result
          (some { code := .internal, message := text }) now)
  | cancel {message : Message} (h : message = .cancel name ∨ message = .shutdown) :
      Ends name d now message
        (d.ended (d.operation.progress.advance .cancelled).1 d.operation.result
          (some { code := .cancelled, message := "Operation cancelled by user" }) now)

/-- What is there after an end was there before, or is what was ended. -/
theorem ended_or_before {result : Option BuildResult} {fault : Option Fault}
    (h : (r.finish m d p result fault now).entryOf? name = some e) :
    r.entryOf? name = some e ∨ name = m ∧ e = d.ended p result fault now := by
  rw [entryOf?_finish] at h
  split at h
  · rename_i hname
    exact Or.inr ⟨hname, (Option.some.inj h).symm⟩
  · exact Or.inl h

theorem done_cases_cancel (h : (r.cancel m now).1.entryOf? name = some e) :
    r.entryOf? name = some e ∨ ∃ d, r.Open name d ∧ Ends name d now (.cancel m) e := by
  rcases cancel_cases r m now with ⟨-, heq⟩ | ⟨d, ho, heq⟩
  · rw [heq] at h
    exact Or.inl h
  · rw [heq] at h
    rcases ended_or_before h with h | ⟨rfl, rfl⟩
    · exact Or.inl h
    · exact Or.inr ⟨d, ho, .cancel (Or.inl rfl)⟩

/-- **What is done after a message was done before, or the message has ended it.** -/
theorem done_cases (hdone : e.operation.done = true)
    (h : (r.handle retention now message).1.entryOf? name = some e) :
    r.entryOf? name = some e ∨ ∃ d, r.Open name d ∧ Ends name d now message e := by
  cases message with
  | register m resource p t =>
    rcases register_cases r m resource p t with ⟨-, -, heq⟩ | ⟨-, other, heq⟩
    · rw [handle, heq, entryOf?_addEntry] at h
      split at h
      · rw [← Option.some.inj h] at hdone
        exact absurd hdone Bool.false_ne_true
      · exact Or.inl h
    · rw [handle, heq] at h
      exact Or.inl h
  | update m p =>
    rcases update_cases r m p with heq | ⟨d, ho, -, heq⟩
    · rw [handle, heq] at h
      exact Or.inl h
    · rw [handle, heq, entryOf?_setEntry] at h
      split at h
      · rw [← Option.some.inj h] at hdone
        exact absurd (hdone.symm.trans ho.2) Bool.false_ne_true.symm
      · exact Or.inl h
  | complete m result =>
    rcases complete_cases r m result now with ⟨-, err, heq⟩ | ⟨d, ho, heq⟩
    · rw [handle, heq] at h
      exact Or.inl h
    · rw [handle, heq] at h
      rcases ended_or_before h with h | ⟨rfl, rfl⟩
      · exact Or.inl h
      · exact Or.inr ⟨d, ho, .complete result⟩
  | fail m text =>
    rcases fail_cases r m text now with ⟨-, err, heq⟩ | ⟨d, ho, heq⟩
    · rw [handle, heq] at h
      exact Or.inl h
    · rw [handle, heq] at h
      rcases ended_or_before h with h | ⟨rfl, rfl⟩
      · exact Or.inl h
      · exact Or.inr ⟨d, ho, .fail text⟩
  | cancel m => exact done_cases_cancel h
  | delete m => exact Or.inl (entry_before_delete h)
  | sweep => exact Or.inl (entry_before_sweep h)
  | shutdown =>
    -- along the cancellations nothing is opened, so what one of them ends was open at first
    have hall : (∀ d, (r.shutdown now).1.Open name d → r.Open name d) ∧
        ∀ e, (r.shutdown now).1.entryOf? name = some e →
          r.entryOf? name = some e ∨ ∃ d, r.Open name d ∧ Ends name d now .shutdown e := by
      refine shutdown_induction (P := fun r' => (∀ d, r'.Open name d → r.Open name d) ∧
        ∀ e, r'.entryOf? name = some e →
          r.entryOf? name = some e ∨ ∃ d, r.Open name d ∧ Ends name d now .shutdown e)
        (fun r' m ih => ⟨fun d h => ih.1 d h.before_cancel, fun e h => ?_⟩)
        ⟨fun _ h => h, fun _ h => Or.inl h⟩
      rcases done_cases_cancel h with h | ⟨d, ho, hends⟩
      · exact ih.2 e h
      · cases hends with
        | cancel => exact Or.inr ⟨d, ih.1 d ho, .cancel (Or.inr rfl)⟩
    exact hall.2 e h

end Registry
end ProtoBuild
