import ProtoBuild.Registry.Message

/-!
# What each change does to a registry

A registry is looked at in three ways: the entry of a name (`entryOf?`), the operation that
is active on a resource (`active?`), and whether a token is tripped.  For each part of a
change there is one equation for each of the three.

A change then is either refused, and leaves the registry as it is, or it is made of these
parts.  `register_cases`, `update_cases`, `complete_cases`, `fail_cases`, `cancel_cases`
and `delete_cases` say which of the two, with all that was checked before.  What is proved
of registries later goes through these and unfolds no change again.

Two things are read off at once.  After somebody has tried to end an operation, it is not
open any more, whether this was refused or not; and a change that names an operation leaves
the entries of all others alone.
-/

namespace ProtoBuild
namespace Registry

variable (r : Registry) (name m : OperationName) (resource s : ResourceName) (t u : Token)

/-- An operation that is registered and not done. -/
def Open (r : Registry) (name : OperationName) (e : Entry) : Prop :=
  r.entryOf? name = some e ∧ e.operation.done = false

/-! ## The parts of a change -/

@[simp] theorem entryOf?_empty : empty.entryOf? name = none := rfl

@[simp] theorem active?_empty : empty.active? resource = none := rfl

theorem entryOf?_setEntry (e : Entry) :
    (r.setEntry name e).entryOf? m = if m = name then some e else r.entryOf? m := by
  simp only [entryOf?, setEntry, StringMap.get?_insert, OperationName.text_inj]

@[simp] theorem active?_setEntry (e : Entry) :
    (r.setEntry name e).active? resource = r.active? resource := rfl

@[simp] theorem tripped_setEntry (e : Entry) : (r.setEntry name e).tripped = r.tripped := rfl

@[simp] theorem entryOf?_trip : (r.trip t).entryOf? name = r.entryOf? name := rfl

@[simp] theorem active?_trip : (r.trip t).active? resource = r.active? resource := rfl

theorem tripped_trip : (r.trip t).tripped u = true ↔ u = t ∨ r.tripped u = true := by
  simp only [trip]
  split <;> simp_all

@[simp] theorem entryOf?_release : (r.release resource name).entryOf? m = r.entryOf? m := by
  unfold release
  split <;> rfl

@[simp] theorem tripped_release : (r.release resource name).tripped = r.tripped := by
  unfold release
  split <;> rfl

theorem active?_release :
    (r.release resource name).active? s =
      if s = resource ∧ r.active? s = some name then none else r.active? s := by
  by_cases h : r.active? resource = some name
  · have hr : r.release resource name = { r with active := r.active.erase resource.text } :=
      if_pos h
    rw [hr]
    simp only [active?, StringMap.get?_erase, ResourceName.text_inj]
    simp only [active?] at h
    by_cases hs : s = resource
    · subst hs
      simp [h]
    · simp [hs]
  · have hr : r.release resource name = r := if_neg h
    rw [hr, if_neg]
    rintro ⟨rfl, hs⟩
    exact h hs

theorem entryOf?_eraseEntry :
    (r.eraseEntry name).entryOf? m = if m = name then none else r.entryOf? m := by
  simp only [entryOf?, eraseEntry, StringMap.get?_erase, OperationName.text_inj]

@[simp] theorem active?_eraseEntry :
    (r.eraseEntry name).active? resource = r.active? resource := rfl

@[simp] theorem tripped_eraseEntry : (r.eraseEntry name).tripped = r.tripped := rfl

theorem entryOf?_addEntry (e : Entry) :
    (r.addEntry name resource e).entryOf? m = if m = name then some e else r.entryOf? m := by
  simp only [entryOf?, addEntry, StringMap.get?_insert, OperationName.text_inj]

theorem active?_addEntry (e : Entry) :
    (r.addEntry name resource e).active? s =
      if s = resource then some name else r.active? s := by
  simp only [active?, addEntry, StringMap.get?_insert, ResourceName.text_inj]

@[simp] theorem tripped_addEntry (e : Entry) :
    (r.addEntry name resource e).tripped = r.tripped := rfl

theorem entryOf?_finish (e : Entry) (p : Progress) (result : Option BuildResult)
    (fault : Option Fault) (now : UInt64) :
    (r.finish name e p result fault now).entryOf? m =
      if m = name then some (e.ended p result fault now) else r.entryOf? m := by
  simp only [finish, entryOf?_release, entryOf?_setEntry]

theorem active?_finish (e : Entry) (p : Progress) (result : Option BuildResult)
    (fault : Option Fault) (now : UInt64) :
    (r.finish name e p result fault now).active? s =
      if s = e.operation.resource ∧ r.active? s = some name then none else r.active? s :=
  active?_release (r.setEntry name (e.ended p result fault now)) name e.operation.resource s

@[simp] theorem tripped_finish (e : Entry) (p : Progress) (result : Option BuildResult)
    (fault : Option Fault) (now : UInt64) :
    (r.finish name e p result fault now).tripped = r.tripped := by
  simp only [finish, tripped_release, tripped_setEntry]

theorem entryOf?_sweep (retention now : UInt64) :
    (r.sweep retention now).1.entryOf? m = (r.entryOf? m).filter (·.isKept retention now) :=
  StringMap.get?_filter r.entries (fun _ e => e.isKept retention now) m.text

@[simp] theorem active?_sweep (retention now : UInt64) :
    (r.sweep retention now).1.active? resource = r.active? resource := rfl

@[simp] theorem tripped_sweep (retention now : UInt64) :
    (r.sweep retention now).1.tripped = r.tripped := rfl

/-! ## Which parts a change is made of -/

variable {r name}

theorem not_open_of_none (h : r.entryOf? name = none) (e : Entry) : ¬ r.Open name e := by
  rintro ⟨he, -⟩
  rw [h] at he
  exact absurd he (by simp)

theorem not_open_of_done {e : Entry} (h : r.entryOf? name = some e)
    (hd : e.operation.done = true) (e' : Entry) : ¬ r.Open name e' := by
  rintro ⟨he, hn⟩
  rw [h] at he
  rw [← Option.some.inj he, hd] at hn
  exact absurd hn (by simp)

variable (r name)

theorem register_cases (p : Progress) (t : Token) :
    (r.active? resource = none ∧ r.entryOf? name = none ∧
        r.register name resource p t =
          (r.addEntry name resource { operation := .pending name resource p, token := t },
            .pending name resource p)) ∨
      (¬ (r.active? resource = none ∧ r.entryOf? name = none) ∧
        ∃ other, r.register name resource p t = (r, .aborted name resource p other)) := by
  unfold register
  cases ha : r.active? resource with
  | some other => exact Or.inr ⟨by simp, other, rfl⟩
  | none =>
    cases he : r.entryOf? name with
    | some e => exact Or.inr ⟨by simp, name, rfl⟩
    | none => exact Or.inl ⟨rfl, rfl, rfl⟩

theorem update_cases (p : Progress) :
    r.update name p = (r, false) ∨
      ∃ e, r.Open name e ∧
        (e.operation.progress.stage = p.stage ∨
          e.operation.progress.stage.canAdvanceTo p.stage = true) ∧
        r.update name p = (r.setEntry name (e.withProgress p), true) := by
  unfold update
  cases h : r.entryOf? name with
  | none => exact Or.inl rfl
  | some e =>
    simp only
    split
    · exact Or.inl rfl
    · rename_i hok
      simp only [Bool.or_eq_true, Bool.not_eq_true', not_or, Bool.not_eq_true,
        Bool.not_eq_false, beq_iff_eq] at hok
      exact Or.inr ⟨e, ⟨h, hok.1⟩, hok.2, rfl⟩

theorem complete_cases (result : BuildResult) (now : UInt64) :
    ((∀ e, ¬ r.Open name e) ∧ ∃ err, r.complete name result now = (r, .error err)) ∨
      ∃ e, r.Open name e ∧
        r.complete name result now =
          (r.finish name e result.progress (some result) e.operation.fault now, .ok ()) := by
  unfold complete
  cases h : r.entryOf? name with
  | none => exact Or.inl ⟨not_open_of_none h, _, rfl⟩
  | some e =>
    cases hd : e.operation.done with
    | true => exact Or.inl ⟨not_open_of_done h hd, _, by simp only [hd, if_true]; rfl⟩
    | false => exact Or.inr ⟨e, ⟨h, hd⟩, by simp [hd]⟩

theorem fail_cases (message : String) (now : UInt64) :
    ((∀ e, ¬ r.Open name e) ∧ ∃ err, r.fail name message now = (r, .error err)) ∨
      ∃ e, r.Open name e ∧
        r.fail name message now =
          (r.finish name e (e.operation.progress.advance .failed).1 e.operation.result
            (some { code := .internal, message := message }) now, .ok ()) := by
  unfold fail
  cases h : r.entryOf? name with
  | none => exact Or.inl ⟨not_open_of_none h, _, rfl⟩
  | some e =>
    cases hd : e.operation.done with
    | true => exact Or.inl ⟨not_open_of_done h hd, _, by simp only [hd, if_true]; rfl⟩
    | false => exact Or.inr ⟨e, ⟨h, hd⟩, by simp [hd]⟩

theorem cancel_cases (now : UInt64) :
    ((∀ e, ¬ r.Open name e) ∧ r.cancel name now = (r, false)) ∨
      ∃ e, r.Open name e ∧
        r.cancel name now =
          ((r.trip e.token).finish name e (e.operation.progress.advance .cancelled).1
            e.operation.result
            (some { code := .cancelled, message := "Operation cancelled by user" }) now,
            true) := by
  unfold cancel
  cases h : r.entryOf? name with
  | none => exact Or.inl ⟨not_open_of_none h, rfl⟩
  | some e =>
    cases hd : e.operation.done with
    | true => exact Or.inl ⟨not_open_of_done h hd, by simp [hd]⟩
    | false => exact Or.inr ⟨e, ⟨h, hd⟩, by simp [hd]⟩

theorem delete_cases :
    (r.entryOf? name = none ∧ r.delete name = (r, false)) ∨
      (∃ e, r.entryOf? name = some e ∧ e.operation.done = true ∧
        r.delete name = ((r.eraseEntry name).release e.operation.resource name, true)) ∨
      ∃ e, r.Open name e ∧
        r.delete name =
          (((r.trip e.token).eraseEntry name).release e.operation.resource name, true) := by
  unfold delete
  cases h : r.entryOf? name with
  | none => exact Or.inl ⟨rfl, rfl⟩
  | some e =>
    cases hd : e.operation.done with
    | true => exact Or.inr (Or.inl ⟨e, rfl, hd, by simp [hd]⟩)
    | false => exact Or.inr (Or.inr ⟨e, ⟨h, hd⟩, by simp [hd]⟩)

/-! ## After an end -/

variable {r name m}

theorem get?_eq_some_iff {o : Operation} :
    r.get? name = some o ↔ ∃ e, r.entryOf? name = some e ∧ e.operation = o := by
  rw [get?, Option.map_eq_some_iff]

theorem get?_eq_none_iff : r.get? name = none ↔ r.entryOf? name = none := by
  rw [get?, Option.map_eq_none_iff]

theorem not_open_finish (r : Registry) (name : OperationName) (e : Entry) (p : Progress)
    (result : Option BuildResult) (fault : Option Fault) (now : UInt64) :
    ∀ e', ¬ (r.finish name e p result fault now).Open name e' := by
  refine not_open_of_done ?_ (rfl : (e.ended p result fault now).operation.done = true)
  rw [entryOf?_finish, if_pos rfl]

theorem not_open_complete (r : Registry) (name : OperationName) (result : BuildResult)
    (now : UInt64) : ∀ e, ¬ (r.complete name result now).1.Open name e := by
  rcases complete_cases r name result now with ⟨hn, err, heq⟩ | ⟨e, ho, heq⟩
  · rw [heq]
    exact hn
  · rw [heq]
    exact not_open_finish _ _ _ _ _ _ _

theorem not_open_fail (r : Registry) (name : OperationName) (message : String) (now : UInt64) :
    ∀ e, ¬ (r.fail name message now).1.Open name e := by
  rcases fail_cases r name message now with ⟨hn, err, heq⟩ | ⟨e, ho, heq⟩
  · rw [heq]
    exact hn
  · rw [heq]
    exact not_open_finish _ _ _ _ _ _ _

theorem not_open_cancel (r : Registry) (name : OperationName) (now : UInt64) :
    ∀ e, ¬ (r.cancel name now).1.Open name e := by
  rcases cancel_cases r name now with ⟨hn, heq⟩ | ⟨e, ho, heq⟩
  · rw [heq]
    exact hn
  · rw [heq]
    exact not_open_finish _ _ _ _ _ _ _

/-- A deletion of a name forgets its operation. -/
theorem entryOf?_delete_self (r : Registry) (name : OperationName) :
    (r.delete name).1.entryOf? name = none := by
  rcases delete_cases r name with ⟨hnone, heq⟩ | ⟨e, -, -, heq⟩ | ⟨e, -, heq⟩
  · rw [heq]
    exact hnone
  · rw [heq, entryOf?_release, entryOf?_eraseEntry, if_pos rfl]
  · rw [heq, entryOf?_release, entryOf?_eraseEntry, if_pos rfl]

theorem entryOf?_of_progress?_eq_none (h : r.progress? name = none) :
    r.entryOf? name = none := by
  rw [progress?, get?, Option.map_eq_none_iff, Option.map_eq_none_iff] at h
  exact h

/-! ## What a change leaves alone -/

theorem entryOf?_finish_of_ne (hm : m ≠ name) (e : Entry) (p : Progress)
    (result : Option BuildResult) (fault : Option Fault) (now : UInt64) :
    (r.finish name e p result fault now).entryOf? m = r.entryOf? m := by
  rw [entryOf?_finish, if_neg hm]

theorem entryOf?_register_of_ne (hm : m ≠ name) (resource : ResourceName) (p : Progress)
    (t : Token) : (r.register name resource p t).1.entryOf? m = r.entryOf? m := by
  rcases register_cases r name resource p t with ⟨-, -, heq⟩ | ⟨-, other, heq⟩
  · rw [heq, entryOf?_addEntry, if_neg hm]
  · rw [heq]

theorem entryOf?_update_of_ne (hm : m ≠ name) (p : Progress) :
    (r.update name p).1.entryOf? m = r.entryOf? m := by
  rcases update_cases r name p with heq | ⟨e, -, -, heq⟩
  · rw [heq]
  · rw [heq, entryOf?_setEntry, if_neg hm]

theorem entryOf?_complete_of_ne (hm : m ≠ name) (result : BuildResult) (now : UInt64) :
    (r.complete name result now).1.entryOf? m = r.entryOf? m := by
  rcases complete_cases r name result now with ⟨-, err, heq⟩ | ⟨e, -, heq⟩
  · rw [heq]
  · rw [heq, entryOf?_finish_of_ne hm]

theorem entryOf?_fail_of_ne (hm : m ≠ name) (message : String) (now : UInt64) :
    (r.fail name message now).1.entryOf? m = r.entryOf? m := by
  rcases fail_cases r name message now with ⟨-, err, heq⟩ | ⟨e, -, heq⟩
  · rw [heq]
  · rw [heq, entryOf?_finish_of_ne hm]

theorem entryOf?_cancel_of_ne (hm : m ≠ name) (now : UInt64) :
    (r.cancel name now).1.entryOf? m = r.entryOf? m := by
  rcases cancel_cases r name now with ⟨-, heq⟩ | ⟨e, -, heq⟩
  · rw [heq]
  · rw [heq, entryOf?_finish_of_ne hm, entryOf?_trip]

theorem entryOf?_delete_of_ne (hm : m ≠ name) :
    (r.delete name).1.entryOf? m = r.entryOf? m := by
  rcases delete_cases r name with ⟨-, heq⟩ | ⟨e, -, -, heq⟩ | ⟨e, -, heq⟩
  · rw [heq]
  · rw [heq, entryOf?_release, entryOf?_eraseEntry, if_neg hm]
  · rw [heq, entryOf?_release, entryOf?_eraseEntry, if_neg hm, entryOf?_trip]

/-! ## A shutdown -/

/-- A shutdown cancels one operation after another, so what a cancellation keeps a
shutdown keeps. -/
theorem shutdown_induction {P : Registry → Prop} {now : UInt64}
    (hstep : ∀ r name, P r → P (r.cancel name now).1) (h : P r) :
    P (r.shutdown now).1 := by
  have hall : ∀ names r, P r → P (cancelAll now names r).1 := by
    intro names
    induction names with
    | nil => exact fun r hr => hr
    | cons name rest ih => exact fun r hr => ih _ (hstep r name hr)
  exact hall _ r h

end Registry
end ProtoBuild
