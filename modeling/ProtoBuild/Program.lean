/-!
# Programs that ask

A program either is done or asks something and goes on with the answer.  What can be
asked, and of which type the answers are, is an `Interface`.  A program says nothing
about who answers: a run of it is a fold over its questions (`Program.answerWith`), so
what is proved of a program holds whatever the answers are.

`answerWith_bind` says that answering respects sequencing.

## Why a tree and not a monad

A build written against some monad could only be reasoned about through the laws of that
monad, and every way of running it would need laws of its own.  A tree of questions is
data: a statement about all runs of a program is an induction on the tree, in which each
question stands for every answer it may get.  Running a program for real, rehearsing it
and driving it from another program are then three choices of one function argument.
-/

namespace ProtoBuild

/-- What a program can ask, and the type of each answer. -/
structure Interface where
  Request : Type
  Answer : Request → Type

/-- A program that asks questions of an interface and ends with a value. -/
inductive Program (I : Interface) (α : Type) : Type where
  | done (a : α)
  | ask (q : I.Request) (next : I.Answer q → Program I α)

namespace Program

variable {I : Interface} {α β γ : Type}

/-- One program after another. -/
def bind (p : Program I α) (f : α → Program I β) : Program I β :=
  match p with
  | .done a => f a
  | .ask q next => .ask q fun a => (next a).bind f

instance : Monad (Program I) where
  pure := .done
  bind := bind

/-- The program that asks one question. -/
def request (q : I.Request) : Program I (I.Answer q) :=
  .ask q .done

/-- Runs a program with an action that answers each question. -/
def answerWith {m : Type → Type} [Monad m] (answer : (q : I.Request) → m (I.Answer q)) :
    Program I α → m α
  | .done a => pure a
  | .ask q next => answer q >>= fun a => (next a).answerWith answer

@[simp] theorem pure_eq_done (a : α) : (pure a : Program I α) = .done a := rfl

@[simp] theorem done_bind (a : α) (f : α → Program I β) : (.done a : Program I α) >>= f = f a :=
  rfl

@[simp] theorem ask_bind (q : I.Request) (next : I.Answer q → Program I α)
    (f : α → Program I β) : .ask q next >>= f = .ask q fun a => next a >>= f :=
  rfl

theorem bind_done (p : Program I α) : p >>= .done = p := by
  induction p with
  | done a => rfl
  | ask q next ih =>
    rw [ask_bind]
    congr 1
    funext a
    exact ih a

theorem bind_bind (p : Program I α) (f : α → Program I β) (g : β → Program I γ) :
    p >>= f >>= g = p >>= fun a => f a >>= g := by
  induction p with
  | done a => rfl
  | ask q next ih =>
    simp only [ask_bind]
    congr 1
    funext a
    exact ih a

instance : LawfulMonad (Program I) where
  map_const := rfl
  id_map := bind_done
  seqLeft_eq {_ β} x y :=
    (bind_bind x (fun a => .done (Function.const β a)) fun g => y >>= fun b => .done (g b)).symm
  seqRight_eq {α β} x y := by
    refine Eq.trans ?_
      (bind_bind x (fun a => .done (Function.const α id a)) fun g => y >>= fun b => .done (g b)).symm
    exact congrArg (Program.bind x) (funext fun _ => (bind_done y).symm)
  pure_seq _ _ := rfl
  bind_pure_comp _ _ := rfl
  bind_map _ _ := rfl
  pure_bind _ _ := rfl
  bind_assoc := bind_bind

/-- Answering respects sequencing. -/
theorem answerWith_bind {m : Type → Type} [Monad m] [LawfulMonad m]
    (answer : (q : I.Request) → m (I.Answer q)) (p : Program I α) (f : α → Program I β) :
    (p >>= f).answerWith answer = p.answerWith answer >>= fun a => (f a).answerWith answer := by
  induction p with
  | done a => simp [answerWith]
  | ask q next ih =>
    rw [ask_bind]
    simp only [answerWith, LawfulMonad.bind_assoc]
    congr 1
    funext a
    exact ih a

end Program
end ProtoBuild
