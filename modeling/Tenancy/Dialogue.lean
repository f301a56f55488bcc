/-!
# Dialogues

A dialogue is a program that puts questions to the world and goes on with the answers. It is kept as
the tree of all its ways, so that what a program may ask, in which order and after which answers, can
be said without running it. `Dialogue.interpret` runs the tree in any monad that can answer, and
`Dialogue.run` does so against a state. Two facts are used throughout: sequencing is associative
(`bind_assoc`), and interpreting respects it (`interpret_bind`).
-/

namespace Tenancy

/-- Questions, and what the answer to each may be. -/
structure Interface where
  Query : Type
  Answer : Query → Type

/-- A program over the questions of an interface. -/
inductive Dialogue (I : Interface) (α : Type) where
  /-- The program is done. -/
  | done (a : α)
  /-- The program asks, and goes on with the answer. -/
  | ask (q : I.Query) (next : I.Answer q → Dialogue I α)

namespace Dialogue

variable {I J : Interface} {α β γ : Type}

protected def bind : Dialogue I α → (α → Dialogue I β) → Dialogue I β
  | .done a, f => f a
  | .ask q next, f => .ask q fun r => (next r).bind f

instance : Monad (Dialogue I) where
  pure := .done
  bind := Dialogue.bind

def query (q : I.Query) : Dialogue I (I.Answer q) := .ask q .done

@[simp] theorem pure_eq (a : α) : (pure a : Dialogue I α) = .done a := rfl

@[simp] theorem done_bind (a : α) (f : α → Dialogue I β) : (.done a : Dialogue I α) >>= f = f a := rfl

@[simp] theorem ask_bind (q : I.Query) (next : I.Answer q → Dialogue I α) (f : α → Dialogue I β) :
    .ask q next >>= f = .ask q fun r => next r >>= f := rfl

theorem bind_done (d : Dialogue I α) : d >>= .done = d := by
  induction d with
  | done a => rfl
  | ask q next ih => exact congrArg _ (funext ih)

theorem bind_assoc (d : Dialogue I α) (f : α → Dialogue I β) (g : β → Dialogue I γ) :
    d >>= f >>= g = d >>= fun a => f a >>= g := by
  induction d with
  | done a => rfl
  | ask q next ih => exact congrArg _ (funext ih)

instance : LawfulMonad (Dialogue I) :=
  LawfulMonad.mk' (Dialogue I) bind_done (fun _ _ => rfl) bind_assoc

/-- Run a program where someone answers. -/
def interpret {m : Type → Type} [Monad m] (answer : (q : I.Query) → m (I.Answer q)) :
    Dialogue I α → m α
  | .done a => pure a
  | .ask q next => do interpret answer (next (← answer q))

theorem interpret_bind {m : Type → Type} [Monad m] [LawfulMonad m]
    (answer : (q : I.Query) → m (I.Answer q)) (d : Dialogue I α) (f : α → Dialogue I β) :
    interpret answer (d >>= f) = interpret answer d >>= fun a => interpret answer (f a) := by
  induction d with
  | done a => simp [interpret]
  | ask q next ih => simp [interpret, ih]

/-- Run a program against a state that changes with every answer. -/
def run {σ : Type} (answer : (q : I.Query) → σ → I.Answer q × σ) (d : Dialogue I α) (s : σ) : α × σ :=
  match d with
  | .done a => (a, s)
  | .ask q next => (next (answer q s).1).run answer (answer q s).2

/-- The questions that are asked when a state gives the answers. -/
def asked {σ : Type} (answer : (q : I.Query) → σ → I.Answer q × σ) (d : Dialogue I α) (s : σ) :
    List I.Query :=
  match d with
  | .done _ => []
  | .ask q next => q :: (next (answer q s).1).asked answer (answer q s).2

theorem run_bind {σ : Type} (answer : (q : I.Query) → σ → I.Answer q × σ) (d : Dialogue I α)
    (f : α → Dialogue I β) (s : σ) :
    (d >>= f).run answer s = (f (d.run answer s).1).run answer (d.run answer s).2 := by
  induction d generalizing s with
  | done a => rfl
  | ask q next ih => exact ih _ _

theorem asked_bind {σ : Type} (answer : (q : I.Query) → σ → I.Answer q × σ) (d : Dialogue I α)
    (f : α → Dialogue I β) (s : σ) :
    (d >>= f).asked answer s =
      d.asked answer s ++ (f (d.run answer s).1).asked answer (d.run answer s).2 := by
  induction d generalizing s with
  | done a => rfl
  | ask q next ih => exact congrArg (q :: ·) (ih _ _)

end Dialogue

end Tenancy
