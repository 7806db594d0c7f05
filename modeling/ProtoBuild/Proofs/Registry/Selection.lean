import Mathlib.Data.Option.Basic
import ProtoBuild.Registry.Filter

/-!
# What a filter selects

A filter is read term by term, and a later term replaces an earlier one of its kind.  So what it
selects can be said of its text alone: the operations whose resource begins as the last term for
resources says, and that are done or not as the last term for this says (`Filter.Selects`).  A
kind without a term selects everything.

The reader agrees with this on every text that it takes (`accepts_iff_selects`); a term that it
does not know makes it give up the whole text.
-/

namespace ProtoBuild
namespace Filter

variable {f g : Filter} {term : List Char} {terms : List (List Char)} {key : String}

/-- The value that a term gives to a key. -/
def valueOf? (key : String) (term : List Char) : Option String :=
  match Text.splitFirst? '=' term with
  | some (k, value) => if k = key.toList then some (String.ofList value) else none
  | none => none

/-- The value of the last term for a key. -/
def lastValue? (key : String) (terms : List (List Char)) : Option String :=
  (terms.filterMap (valueOf? key)).getLast?

/-- How a truth value is written in a filter. -/
def truthText (b : Bool) : String := if b then "true" else "false"

/-- An operation is selected by the text of a filter: its resource begins with the value of the
last term for resources, and the value of the last term for the end is whether it is done. -/
def Selects (text : String) (o : Operation) : Prop :=
  (∀ start, lastValue? "resource" (Text.words text.toList) = some start →
    start.toList <+: o.resource.text.toList) ∧
  ∀ value, lastValue? "done" (Text.words text.toList) = some value → value = truthText o.done

theorem lastValue?_cons (key : String) (term : List Char) (rest : List (List Char)) :
    lastValue? key (term :: rest) = (lastValue? key rest).or (valueOf? key term) := by
  rw [lastValue?, List.filterMap_cons]
  cases valueOf? key term with
  | none => exact (Option.or_none).symm
  | some value =>
    dsimp only
    rw [← List.singleton_append, List.getLast?_append]
    rfl

/-! ## One term -/

theorem eq_truthText {value : List Char} {b : Bool} (h : value = (truthText b).toList) :
    String.ofList value = truthText b := by
  rw [h, String.ofList_toList]

/-- What a term does to a filter that takes it. -/
theorem addTerm?_cases (h : f.addTerm? term = some g) :
    (∃ start, valueOf? "resource" term = some start ∧ valueOf? "done" term = none ∧
      g = { f with resourceStart := some start }) ∨
    ∃ b, valueOf? "resource" term = none ∧ valueOf? "done" term = some (truthText b) ∧
      g = { f with done := some b } := by
  unfold addTerm? at h
  unfold valueOf?
  split at h
  · exact nomatch h
  · rename_i k value hsplit
    rw [hsplit]
    split at h
    · rename_i hkey
      obtain rfl := Option.some.inj h
      refine Or.inl ⟨_, if_pos hkey, if_neg ?_, rfl⟩
      rw [hkey]
      decide
    · rename_i hother
      split at h
      · rename_i hkey
        refine Or.inr ?_
        split at h
        · rename_i htrue
          obtain rfl := Option.some.inj h
          exact ⟨true, if_neg hother, (if_pos hkey).trans (congrArg some (eq_truthText htrue)), rfl⟩
        · split at h
          · rename_i hfalse
            obtain rfl := Option.some.inj h
            exact ⟨false, if_neg hother, (if_pos hkey).trans (congrArg some (eq_truthText hfalse)),
              rfl⟩
          · exact nomatch h
      · exact nomatch h

/-! ## All terms -/

/-- Of each kind a filter has what the last term says, or else what it had before. -/
theorem addTerms_ok (h : f.addTerms terms = .ok g) :
    g.resourceStart = (lastValue? "resource" terms).or f.resourceStart ∧
      g.done.map truthText = (lastValue? "done" terms).or (f.done.map truthText) := by
  induction terms generalizing f with
  | nil =>
    obtain rfl := Except.ok.inj h
    exact ⟨rfl, rfl⟩
  | cons term rest ih =>
    rw [addTerms] at h
    split at h
    · rename_i f' hterm
      obtain ⟨hstart, hdone⟩ := ih h
      rw [lastValue?_cons, lastValue?_cons, hstart, hdone]
      rcases addTerm?_cases hterm with ⟨start, hresource, hnone, rfl⟩ | ⟨b, hnone, hvalue, rfl⟩
      · rw [hresource, hnone, Option.or_none, Option.or_assoc]
        exact ⟨rfl, rfl⟩
      · rw [hvalue, hnone, Option.or_none, Option.or_assoc]
        exact ⟨rfl, rfl⟩
    · exact nomatch h

theorem truthText_inj {a b : Bool} (h : truthText a = truthText b) : a = b := by
  revert h
  cases a <;> cases b <;> decide

/-- **What a filter accepts is what its text selects.** -/
theorem accepts_iff_selects {text : String} (h : parse text = .ok f) (o : Operation) :
    f.accepts o = true ↔ Selects text o := by
  obtain ⟨hstart, hdone⟩ := addTerms_ok h
  rw [show ({} : Filter).resourceStart = none from rfl, Option.or_none] at hstart
  rw [show ({} : Filter).done.map truthText = none from rfl, Option.or_none] at hdone
  rw [Selects, ← hstart, ← hdone, accepts, Bool.and_eq_true]
  refine and_congr ?_ ?_
  · cases f.resourceStart with
    | none => simp
    | some start => simp [beginsWith]
  · cases f.done with
    | none => simp
    | some b =>
      rw [beq_iff_eq]
      constructor
      · rintro rfl value hvalue
        exact (Option.some.inj hvalue).symm
      · intro hall
        exact (truthText_inj (hall _ rfl)).symm

end Filter
end ProtoBuild
