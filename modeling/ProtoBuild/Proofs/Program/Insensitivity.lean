import Mathlib.Data.List.Forall2
import ProtoBuild.Proofs.Program.Runs

/-!
# What makes no difference to a program

Two answers to a question may differ in something that a program does not look at.  A relation
between answers says in what (`R`), and a program is insensitive to it if after each question it
goes on in the same way with answers that are related.

Two environments that answer related pasts by related answers then cannot be told apart by such a
program: it asks both the same, and it ends with the same value (`Insensitive.replayAfter`).

## Why the rest of the program is compared

That two runs ask the same could also be said of the runs.  But what stands after a question is a
program, and two programs that are equal are equal in all of their runs; so at each question there
is one equation to prove and nothing to carry along.
-/

namespace ProtoBuild

variable {I : Interface} {α β : Type}

/-- Two exchanges with the same question and related answers. -/
inductive Exchange.Related (R : (q : I.Request) → I.Answer q → I.Answer q → Prop) :
    Exchange I → Exchange I → Prop where
  | mk {q : I.Request} {answer answer' : I.Answer q} (h : R q answer answer') :
      Related R ⟨q, answer⟩ ⟨q, answer'⟩

namespace Program

variable {R : (q : I.Request) → I.Answer q → I.Answer q → Prop} {p : Program I α}

/-- After each question a program goes on in the same way with related answers. -/
def Insensitive (R : (q : I.Request) → I.Answer q → I.Answer q → Prop) : Program I α → Prop
  | .done _ => True
  | .ask q next =>
    (∀ answer answer', R q answer answer' → next answer = next answer') ∧
      ∀ answer, (next answer).Insensitive R

theorem insensitive_bind {p : Program I α} {f : α → Program I β} (h : p.Insensitive R)
    (hf : ∀ a, (f a).Insensitive R) : (p >>= f).Insensitive R := by
  induction p with
  | done a => exact hf a
  | ask q next ih =>
    obtain ⟨hsame, hnext⟩ := h
    refine ⟨fun answer answer' hanswer => ?_, fun answer => ih answer (hnext answer)⟩
    exact congrArg (· >>= f) (hsame answer answer' hanswer)

/-- Runs with related answers ask the same. -/
theorem map_request_eq {run run' : List (Exchange I)}
    (h : List.Forall₂ (Exchange.Related R) run run') :
    run.map Exchange.request = run'.map Exchange.request := by
  induction h with
  | nil => rfl
  | cons hx _ ih =>
    cases hx
    rw [List.map_cons, List.map_cons, ih]

/-- **Two environments that an insensitive program cannot tell apart.** -/
theorem Insensitive.replayAfter (h : p.Insensitive R)
    {answer answer' : List (Exchange I) → (q : I.Request) → I.Answer q}
    (hanswer : ∀ past past' q, List.Forall₂ (Exchange.Related R) past past' →
      R q (answer past q) (answer' past' q))
    {past past' : List (Exchange I)} (hpast : List.Forall₂ (Exchange.Related R) past past') :
    List.Forall₂ (Exchange.Related R) (p.replayAfter answer past).1
        (p.replayAfter answer' past').1 ∧
      (p.replayAfter answer past).2 = (p.replayAfter answer' past').2 := by
  induction p generalizing past past' with
  | done a => exact ⟨.nil, rfl⟩
  | ask q next ih =>
    obtain ⟨hsame, hnext⟩ := h
    have hrelated := hanswer past past' q hpast
    have hpast' : List.Forall₂ (Exchange.Related R) (past ++ [⟨q, answer past q⟩])
        (past' ++ [⟨q, answer' past' q⟩]) :=
      List.rel_append hpast (.cons (.mk hrelated) .nil)
    obtain ⟨hrun, hvalue⟩ := ih (answer past q) (hnext (answer past q)) hpast'
    -- what is left after the two answers is one program
    have hleft : (next (answer past q)).replayAfter answer' (past' ++ [⟨q, answer' past' q⟩]) =
        (next (answer' past' q)).replayAfter answer' (past' ++ [⟨q, answer' past' q⟩]) := by
      rw [hsame _ _ hrelated]
    rw [hleft] at hrun hvalue
    exact ⟨.cons (.mk hrelated) hrun, hvalue⟩

end Program
end ProtoBuild
