namespace ComponentBuild

/-- A computation that ends or asks a question; each question has its own type of answers. -/
inductive Dialogue (Q : Type) (A : Q → Type) (α : Type) where
  | done (a : α)
  | ask (q : Q) (next : A q → Dialogue Q A α)

namespace Dialogue

variable {Q : Type} {A : Q → Type} {α β : Type}

def bind : Dialogue Q A α → (α → Dialogue Q A β) → Dialogue Q A β
  | done a, f => f a
  | ask q next, f => ask q fun answer => (next answer).bind f

instance : Monad (Dialogue Q A) where
  pure := done
  bind := bind

def question (q : Q) : Dialogue Q A (A q) := ask q done

/-- Holds the dialogue with surroundings that answer one question at a time. -/
def run {m : Type → Type} [Monad m] (answer : (q : Q) → m (A q)) : Dialogue Q A α → m α
  | done a => pure a
  | ask q next => do (next (← answer q)).run answer

/-- Asks each question in the words of another dialogue. -/
def translate {P : Type} {B : P → Type} (say : (q : Q) → Dialogue P B (A q)) :
    Dialogue Q A α → Dialogue P B α
  | done a => done a
  | ask q next => (say q).bind fun answer => (next answer).translate say

@[simp] theorem pure_eq (a : α) : (pure a : Dialogue Q A α) = done a := rfl

@[simp] theorem bind_eq (d : Dialogue Q A α) (f : α → Dialogue Q A β) : d >>= f = d.bind f := rfl

@[simp] theorem done_bind (a : α) (f : α → Dialogue Q A β) : (done a).bind f = f a := rfl

@[simp] theorem ask_bind (q : Q) (next : A q → Dialogue Q A α) (f : α → Dialogue Q A β) :
    (ask q next).bind f = ask q fun answer => (next answer).bind f := rfl

@[simp] theorem bind_done (d : Dialogue Q A α) : d.bind done = d := by
  induction d with
  | done a => rfl
  | ask q next ih => simp [ih]

theorem bind_assoc {γ : Type} (d : Dialogue Q A α) (f : α → Dialogue Q A β)
    (g : β → Dialogue Q A γ) : (d.bind f).bind g = d.bind fun a => (f a).bind g := by
  induction d with
  | done a => rfl
  | ask q next ih => simp [ih]

instance : LawfulMonad (Dialogue Q A) :=
  LawfulMonad.mk' (Dialogue Q A) (fun d => bind_done d) (fun _ _ => rfl) bind_assoc

end Dialogue

end ComponentBuild
