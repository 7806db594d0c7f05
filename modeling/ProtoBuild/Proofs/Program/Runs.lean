import ProtoBuild.Program

/-!
# Runs of a program

A run of a program is the list of its questions with the answers they got.
`Program.Reaches p run q` says that `q` is left of `p` after a run; a run is complete when
what is left is `done`.

What holds of all complete runs is said by `Program.Ensures`.  It carries along the run so
far, so that a condition on a whole run can be kept up while the run grows, and it goes
through a program question by question: `ensures_bind` cuts a program at any place, and
`ensures_iff` says what it means.

`reaches_bind_iff` and `reaches_answerWith` cut a run where the program is cut: at a
`bind`, and where one program answers another.

## Why complete runs are enough

Somebody who looks at a program while it runs sees a run that is not complete.  If every
question can be answered at all, that run goes on to a complete one
(`Reaches.exists_complete`), so
what a complete run never does, a run under way has not done either.
-/

namespace ProtoBuild

/-- A question and the answer it got. -/
structure Exchange (I : Interface) where
  request : I.Request
  answer : I.Answer request

namespace Program

variable {I J : Interface} {α β : Type} {p p' p'' : Program I α} {a b : α}
  {run run' : List (Exchange I)}

/-- What is left of a program after a run. -/
inductive Reaches : Program I α → List (Exchange I) → Program I α → Prop where
  | refl (p : Program I α) : Reaches p [] p
  | ask {q : I.Request} {next : I.Answer q → Program I α} {answer : I.Answer q}
      {run : List (Exchange I)} {p : Program I α} (h : Reaches (next answer) run p) :
      Reaches (.ask q next) (⟨q, answer⟩ :: run) p

theorem Reaches.append (h : Reaches p run p') (h' : Reaches p' run' p'') :
    Reaches p (run ++ run') p'' := by
  induction h with
  | refl p => exact h'
  | ask _ ih => exact .ask (ih h')

/-- A run that has come to a question goes on with its answer. -/
theorem Reaches.snoc {q : I.Request} {next : I.Answer q → Program I α}
    (h : Reaches p run (.ask q next)) (answer : I.Answer q) :
    Reaches p (run ++ [⟨q, answer⟩]) (next answer) :=
  h.append (.ask (.refl _))

/-- A run can be cut at any place. -/
theorem Reaches.exists_between (h : Reaches p (run ++ run') p'') :
    ∃ p', Reaches p run p' ∧ Reaches p' run' p'' := by
  induction run generalizing p with
  | nil => exact ⟨p, .refl p, h⟩
  | cons x run ih =>
    cases h with
    | ask h =>
      obtain ⟨p', hrun, hrun'⟩ := ih h
      exact ⟨p', .ask hrun, hrun'⟩

@[simp] theorem reaches_done_iff : Reaches (.done a) run p ↔ run = [] ∧ p = .done a := by
  constructor
  · intro h
    cases h
    exact ⟨rfl, rfl⟩
  · rintro ⟨rfl, rfl⟩
    exact .refl _

@[simp] theorem reaches_nil_iff : Reaches p [] p' ↔ p' = p := by
  constructor
  · intro h
    generalize hrun : ([] : List (Exchange I)) = run at h
    cases h with
    | refl => rfl
    | ask _ => exact absurd hrun (by simp)
  · rintro rfl
    exact .refl _

theorem reaches_ask_done_iff {q : I.Request} {next : I.Answer q → Program I α} :
    Reaches (.ask q next) run (.done b) ↔
      ∃ answer rest, run = ⟨q, answer⟩ :: rest ∧ Reaches (next answer) rest (.done b) := by
  constructor
  · intro h
    cases h with
    | ask h => exact ⟨_, _, rfl, h⟩
  · rintro ⟨answer, rest, rfl, h⟩
    exact .ask h

theorem reaches_request_iff {q : I.Request} {answer : I.Answer q} :
    Reaches (request q) run (.done answer) ↔ run = [⟨q, answer⟩] := by
  rw [request, reaches_ask_done_iff]
  constructor
  · rintro ⟨answer', rest, rfl, h⟩
    obtain ⟨rfl, hdone⟩ := reaches_done_iff.mp h
    cases hdone
    rfl
  · rintro rfl
    exact ⟨answer, [], rfl, .refl _⟩

/-- A complete run of one program after another is a complete run of the first and then
one of the second. -/
theorem reaches_bind_iff {p : Program I α} {f : α → Program I β} {b : β} :
    Reaches (p >>= f) run (.done b) ↔
      ∃ first second a, run = first ++ second ∧ Reaches p first (.done a) ∧
        Reaches (f a) second (.done b) := by
  induction p generalizing run with
  | done a =>
    constructor
    · intro h
      exact ⟨[], run, a, rfl, .refl _, h⟩
    · rintro ⟨first, second, a', rfl, h, h'⟩
      obtain ⟨rfl, ha⟩ := reaches_done_iff.mp h
      cases ha
      exact h'
  | ask q next ih =>
    rw [ask_bind, reaches_ask_done_iff]
    constructor
    · rintro ⟨answer, rest, rfl, h⟩
      obtain ⟨first, second, a, rfl, h₁, h₂⟩ := (ih answer).mp h
      exact ⟨_, second, a, rfl, .ask h₁, h₂⟩
    · rintro ⟨first, second, a, rfl, h₁, h₂⟩
      obtain ⟨answer, rest, rfl, h⟩ := reaches_ask_done_iff.mp h₁
      exact ⟨answer, _, rfl, (ih answer).mpr ⟨rest, second, a, rfl, h, h₂⟩⟩

theorem reaches_bind_done_iff {p : Program I α} {f : α → β} {b : β} :
    Reaches (p >>= fun a => .done (f a)) run (.done b) ↔
      ∃ a, Reaches p run (.done a) ∧ f a = b := by
  rw [reaches_bind_iff]
  constructor
  · rintro ⟨first, second, a, rfl, hfirst, hsecond⟩
    obtain ⟨rfl, hdone⟩ := reaches_done_iff.mp hsecond
    rw [List.append_nil]
    exact ⟨a, hfirst, (Program.done.inj hdone).symm⟩
  · rintro ⟨a, h, rfl⟩
    exact ⟨run, [], a, (List.append_nil run).symm, h, .refl _⟩

/-- The run of a program whose questions are answered by a function, and its value. -/
def replay (answer : (q : I.Request) → I.Answer q) : Program I α → List (Exchange I) × α
  | .done a => ([], a)
  | .ask q next =>
    let (run, a) := (next (answer q)).replay answer
    (⟨q, answer q⟩ :: run, a)

theorem reaches_replay (answer : (q : I.Request) → I.Answer q) (p : Program I α) :
    Reaches p (p.replay answer).1 (.done (p.replay answer).2) := by
  induction p with
  | done a => exact .refl _
  | ask q next ih => exact .ask (ih (answer q))

/-- The run of a program after another run, where an answer may depend on all that was asked
before, and its value. -/
def replayAfter (answer : List (Exchange I) → (q : I.Request) → I.Answer q) :
    List (Exchange I) → Program I α → List (Exchange I) × α
  | _, .done a => ([], a)
  | past, .ask q next =>
    let x : Exchange I := ⟨q, answer past q⟩
    let (run, a) := (next x.answer).replayAfter answer (past ++ [x])
    (x :: run, a)

theorem reaches_replayAfter (answer : List (Exchange I) → (q : I.Request) → I.Answer q)
    (past : List (Exchange I)) (p : Program I α) :
    Reaches p (p.replayAfter answer past).1 (.done (p.replayAfter answer past).2) := by
  induction p generalizing past with
  | done a => exact .refl _
  | ask q next ih => exact .ask (ih (answer past q) _)

/-- An answer need not depend on what was asked before. -/
theorem replay_eq_replayAfter (answer : (q : I.Request) → I.Answer q) (past : List (Exchange I))
    (p : Program I α) : p.replay answer = p.replayAfter (fun _ => answer) past := by
  induction p generalizing past with
  | done a => rfl
  | ask q next ih => rw [replay, replayAfter, ih]

/-- Every run can be completed if every question can be answered. -/
theorem Reaches.exists_complete (h : Reaches p run p') (answer : (q : I.Request) → I.Answer q) :
    ∃ more b, Reaches p (run ++ more) (.done b) ∧ Reaches p' more (.done b) :=
  ⟨_, _, h.append (reaches_replay answer p'), reaches_replay answer p'⟩

/-! ## What all complete runs ensure -/

/-- After a run, however the questions of a program are answered, it ends with a value and
a longer run of which a condition holds. -/
def Ensures : Program I α → (α → List (Exchange I) → Prop) → List (Exchange I) → Prop
  | .done a, Q, run => Q a run
  | .ask q next, Q, run => ∀ answer, (next answer).Ensures Q (run ++ [⟨q, answer⟩])

theorem ensures_iff {Q : α → List (Exchange I) → Prop} :
    p.Ensures Q run ↔ ∀ more b, Reaches p more (.done b) → Q b (run ++ more) := by
  induction p generalizing run with
  | done a => simp [Ensures]
  | ask q next ih =>
    simp only [Ensures, ih, reaches_ask_done_iff]
    constructor
    · rintro h more b ⟨answer, rest, rfl, hr⟩
      rw [List.append_cons]
      exact h answer rest b hr
    · intro h answer rest b hr
      rw [← List.append_cons]
      exact h _ b ⟨answer, rest, rfl, hr⟩

theorem ensures_bind {p : Program I α} {f : α → Program I β}
    {Q : β → List (Exchange I) → Prop} :
    (p >>= f).Ensures Q run ↔ p.Ensures (fun a run => (f a).Ensures Q run) run := by
  induction p generalizing run with
  | done a => exact Iff.rfl
  | ask q next ih => exact forall_congr' fun answer => ih answer

theorem Ensures.mono {Q Q' : α → List (Exchange I) → Prop} (h : p.Ensures Q run)
    (hQ : ∀ b run, Q b run → Q' b run) : p.Ensures Q' run := by
  rw [ensures_iff] at h ⊢
  exact fun more b hr => hQ b _ (h more b hr)

/-! ## Programs that answer programs -/

/-- The complete runs of a program that is answered by another one, where the run of each
answer can be told from the question and the answer. -/
theorem reaches_answerWith {answer : (q : I.Request) → Program J (I.Answer q)}
    {trace : Exchange I → List (Exchange J)}
    (htrace : ∀ q part reply, Reaches (answer q) part (.done reply) → part = trace ⟨q, reply⟩)
    {p : Program I α} {run : List (Exchange J)}
    (h : Reaches (p.answerWith answer) run (.done b)) :
    ∃ inner, Reaches p inner (.done b) ∧ run = inner.flatMap trace := by
  induction p generalizing run with
  | done a =>
    obtain ⟨rfl, ha⟩ := reaches_done_iff.mp h
    cases ha
    exact ⟨[], .refl _, rfl⟩
  | ask q next ih =>
    obtain ⟨first, second, reply, rfl, h₁, h₂⟩ := reaches_bind_iff.mp h
    obtain ⟨inner, hp, rfl⟩ := ih reply h₂
    exact ⟨⟨q, reply⟩ :: inner, .ask hp, by rw [htrace q first reply h₁, List.flatMap_cons]⟩

end Program
end ProtoBuild
