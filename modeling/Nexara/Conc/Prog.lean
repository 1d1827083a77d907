import Mathlib.Logic.Relation
import Mathlib.Tactic.Common

/-!
# Programs over atomic statements

A program is a tree of statements: it issues one, waits for its answer, and goes on as the answer
says. A statement is atomic; between two statements of one program any other program may run.
`Prog` is the free monad on a signature of statements, so code is written with `do` and read off
its source line by line.
-/

namespace Conc

/-- The atomic statements a program may issue, and what each of them answers. -/
structure Sig where
  Stmt : Type
  Ans : Stmt → Type

/-- A program with result type `α`. -/
inductive Prog (S : Sig) (α : Type) : Type where
  | pure (a : α) : Prog S α
  | call (e : S.Stmt) (k : S.Ans e → Prog S α) : Prog S α

namespace Prog

variable {S : Sig} {α β γ : Type}

def bind : Prog S α → (α → Prog S β) → Prog S β
  | .pure a, f => f a
  | .call e k, f => .call e fun a => (k a).bind f

instance : Monad (Prog S) where
  pure := Prog.pure
  bind := Prog.bind

def stmt (e : S.Stmt) : Prog S (S.Ans e) := .call e .pure

/-- Run `f` on every element in order, for its effect only. -/
def each (f : α → Prog S Unit) : List α → Prog S Unit
  | [] => Pure.pure ()
  | x :: xs => do f x; each f xs

def done : Prog S α → Bool
  | .pure _ => true
  | .call _ _ => false

/-! ## Running through a program

With the lemmas that are tagged from here on, `simp` goes through code statement by statement.
-/

@[simp] theorem pure_eq (a : α) : (Pure.pure a : Prog S α) = .pure a := rfl

@[simp] theorem bind_eq (p : Prog S α) (f : α → Prog S β) : p >>= f = p.bind f := rfl

attribute [simp] bind stmt

variable {p : Prog S α}

@[simp] theorem ite_bind {c : Prop} [Decidable c] {q : Prog S α} {f : α → Prog S β} :
    (if c then p else q).bind f = if c then p.bind f else q.bind f := by
  split_ifs <;> rfl

theorem forall_except {ε : Type} {P : Except ε α → Prop} :
    (∀ x, P x) ↔ (∀ e, P (.error e)) ∧ ∀ a, P (.ok a) := by
  refine ⟨fun h => ⟨fun e => h (.error e), fun a => h (.ok a)⟩, fun h x => ?_⟩
  cases x with
  | error e => exact h.1 e
  | ok a => exact h.2 a

/-! ## The statements a program can issue -/

/-- Every statement the program can ever issue satisfies `N`. -/
@[simp] def All (N : S.Stmt → Prop) : Prog S α → Prop
  | .pure _ => True
  | .call e k => N e ∧ ∀ a, (k a).All N

variable {N : S.Stmt → Prop}

theorem All.bind {f : α → Prog S β} (hp : p.All N) (hf : ∀ a, (f a).All N) : (p >>= f).All N := by
  induction p with
  | pure a => exact hf a
  | call e k ih => exact ⟨hp.1, fun a => ih a (hp.2 a)⟩

@[simp] theorem all_ite {c : Prop} [Decidable c] {q : Prog S α} :
    (if c then p else q).All N ↔ (c → p.All N) ∧ (¬c → q.All N) := by
  split_ifs with h <;> simp [h]

theorem All.each {f : α → Prog S Unit} (h : ∀ a, (f a).All N) (l : List α) :
    (Prog.each f l).All N := by
  induction l with
  | nil => trivial
  | cons x xs ih => exact (h x).bind fun _ => ih

end Prog

/-! ## Runs of actions -/

/-- What every action keeps holds after a run of them. -/
theorem foldlM_invariant {S A : Type} {step : S → A → Option S} {P : S → Prop}
    (h : ∀ s a s', P s → step s a = some s' → P s') {acts : List A} {s s' : S} (hs : P s)
    (hrun : acts.foldlM step s = some s') : P s' := by
  induction acts generalizing s with
  | nil => cases hrun; exact hs
  | cons a acts ih =>
    obtain ⟨t, ht, hrun⟩ := Option.bind_eq_some_iff.mp hrun
    exact ih (h s a t hs ht) hrun

end Conc
