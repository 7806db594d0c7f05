import ProtoBuild.Proofs.Pipeline.Rules

/-!
# The order of calls

A build calls its collaborators stage by stage: `Call.rank` is the place of a stage, and
only building and running are done more than once.  `Proper` says of the calls of a run that
each comes at its place, that none comes after a stage that has failed, and that nothing is
done inside the lake for a target outside.

While a build goes on, more is true: no call so far has failed, and a call of a certain rank
may come next (`Clear`).  A call of this rank is proper whatever its answer is, and if it has
not failed the calls are clear again, for the same rank or for the next.

## What counts as a failure

`Answered.fails` is said of a call and its answer alone, without the program.  A collaborator
that returns an error has failed, and so have checks that were run and found errors.  A unit
that was not built has failed its stage only if the build is not to go on after a failure,
and an action that was not run never fails its stage.
-/

namespace ProtoBuild

namespace Call

/-- The place of a call among the stages of a build. -/
def rank : Call → Nat
  | prepare _ => 0
  | codegen _ => 1
  | validate _ => 2
  | clean _ => 3
  | discover _ _ => 4
  | build _ _ _ => 5
  | query _ _ => 6
  | run _ _ _ => 7

/-- Whether a build makes such a call more than once. -/
def isRepeated : Call → Bool
  | build _ _ _ | run _ _ _ => true
  | _ => false

/-- Whether a call may come before a call of a rank. -/
def Precedes (c : Call) (k : Nat) : Prop :=
  c.rank < k ∨ c.rank = k ∧ c.isRepeated = true

/-- Only the last stages repeat a call. -/
theorem five_le_rank {c : Call} (h : c.isRepeated = true) : 5 ≤ c.rank := by
  cases c with
  | build root args pattern => exact Nat.le_refl 5
  | run root label args => exact Nat.le_of_ble_eq_true rfl
  | _ => exact absurd h Bool.false_ne_true

theorem Precedes.mono {c : Call} {k m : Nat} (h : c.Precedes k) (hkm : k ≤ m) :
    c.Precedes m := by
  rcases h with h | ⟨rfl, hrepeated⟩
  · exact Or.inl (by omega)
  · rcases Nat.lt_or_eq_of_le hkm with hlt | rfl
    · exact Or.inl hlt
    · exact Or.inr ⟨rfl, hrepeated⟩

end Call

namespace Pipeline

/-- The stage of a call has failed with its answer.  `goOn` says whether the build goes on
after a unit that was not built. -/
def Answered.fails (goOn : Bool) : Answered → Bool
  | ⟨.prepare _, .error _⟩ => true
  | ⟨.codegen _, (_, .error _)⟩ => true
  | ⟨.validate _, (_, .error _)⟩ => true
  | ⟨.validate _, (_, .ok report)⟩ => report.skipped.isNone && ! report.success
  | ⟨.clean _, .error _⟩ => true
  | ⟨.discover _ _, .error _⟩ => true
  | ⟨.build _ _ _, .error _⟩ => ! goOn
  | ⟨.build _ _ _, .ok output⟩ =>
    ! goOn && ! (BuildOutcome.classify output.exitCode output.text).isUsable
  | ⟨.query _ _, .error _⟩ => true
  | _ => false

variable {goOn : Bool} {outside : Prop} {k m : Nat} {l : List Answered} {x : Answered}

/-- Each call comes at its place, and none after a stage that has failed. -/
def InOrder (goOn : Bool) (l : List Answered) : Prop :=
  l.Pairwise fun x y => x.1.Precedes y.1.rank ∧ x.fails goOn = false

/-- A call that has failed its stage is of the last rank. -/
theorem InOrder.rank_le {y : Answered} (h : InOrder goOn l) (hx : x ∈ l)
    (hfails : x.fails goOn = true) (hy : y ∈ l) : y.1.rank ≤ x.1.rank := by
  obtain ⟨before, after, rfl⟩ := List.append_of_mem hx
  obtain ⟨-, hafter, hbefore⟩ := List.pairwise_append.mp h
  rcases List.mem_append.mp hy with hy | hy
  · rcases (hbefore y hy x List.mem_cons_self).1 with hlt | ⟨heq, -⟩
    · exact Nat.le_of_lt hlt
    · exact Nat.le_of_eq heq
  · rcases List.mem_cons.mp hy with rfl | hy
    · exact Nat.le_refl _
    · have hgood : x.fails goOn = false := (List.rel_of_pairwise_cons hafter hy).2
      rw [hgood] at hfails
      exact absurd hfails Bool.false_ne_true

/-- The calls are in order, and for a target outside the lake there are only those that come
before the build phase. -/
structure Proper (goOn : Bool) (outside : Prop) (l : List Answered) : Prop where
  inOrder : InOrder goOn l
  keepsOut : outside → ∀ x ∈ l, x.1.rank < 3

/-- What is proper is so from the beginning. -/
theorem Proper.of_append {l' : List Answered} (h : Proper goOn outside (l ++ l')) :
    Proper goOn outside l where
  inOrder := (List.pairwise_append.mp h.inOrder).1
  keepsOut hout x hx := h.keepsOut hout x (List.mem_append_left l' hx)

/-- The calls are in order, none has failed, and a call of a certain rank may come next. -/
structure Clear (goOn : Bool) (k : Nat) (l : List Answered) : Prop where
  inOrder : InOrder goOn l
  next : ∀ x ∈ l, x.1.Precedes k ∧ x.fails goOn = false

theorem clear_nil (goOn : Bool) (k : Nat) : Clear goOn k [] where
  inOrder := List.Pairwise.nil
  next _ hx := absurd hx List.not_mem_nil

namespace Clear

theorem mono (h : Clear goOn k l) (hkm : k ≤ m) : Clear goOn m l where
  inOrder := h.inOrder
  next x hx := ⟨(h.next x hx).1.mono hkm, (h.next x hx).2⟩

/-- As long as the calls of the build phase are still to come, none of them has been made. -/
theorem rank_lt (h : Clear goOn k l) (hk : k ≤ 3) : ∀ x ∈ l, x.1.rank < 3 := by
  intro x hx
  rcases (h.next x hx).1 with hlt | ⟨heq, hrepeated⟩
  · omega
  · have hlate : 5 ≤ x.1.rank := Call.five_le_rank hrepeated
    omega

theorem proper (h : Clear goOn k l) (hk : outside → k ≤ 3) : Proper goOn outside l where
  inOrder := h.inOrder
  keepsOut hout := h.rank_lt (hk hout)

/-- The next call is proper, whatever its answer is. -/
theorem proper_concat (h : Clear goOn k l) (hx : x.1.rank = k) (hk : outside → k < 3) :
    Proper goOn outside (l ++ [x]) where
  inOrder := by
    refine List.pairwise_append.mpr ⟨h.inOrder, List.pairwise_singleton _ _, fun y hy z hz => ?_⟩
    obtain rfl := List.mem_singleton.mp hz
    rw [hx]
    exact h.next y hy
  keepsOut hout y hy := by
    have hlt : k < 3 := hk hout
    rcases List.mem_append.mp hy with hy | hy
    · exact h.rank_lt (by omega) y hy
    · rw [List.mem_singleton.mp hy, hx]
      exact hlt

/-- After a call that has not failed, one that it may precede may come next. -/
theorem concat (h : Clear goOn k l) (hx : x.1.rank = k) (hok : x.fails goOn = false)
    (hm : x.1.Precedes m) : Clear goOn m (l ++ [x]) where
  inOrder := by
    have hproper : Proper goOn False (l ++ [x]) := h.proper_concat hx False.elim
    exact hproper.inOrder
  next y hy := by
    rcases List.mem_append.mp hy with hy | hy
    · refine ⟨(h.next y hy).1.mono ?_, (h.next y hy).2⟩
      rcases hm with hm | hm <;> omega
    · obtain rfl := List.mem_singleton.mp hy
      exact ⟨hm, hok⟩

end Clear
end Pipeline
end ProtoBuild
