import Mathlib.Logic.Basic

/-!
# Sequential programs with an early stop

A `Prog σ ε α` runs on a state of type `σ` and either returns a value of type `α` or stops
early with a reason of type `ε` (an exit, a failed assertion); both ways it yields the state it
reached.  A program is a total function, so a triple about it is one of total correctness.
Nothing here is specific to one program.

* `Triple P m Q E` — from a state satisfying `P`, `m` returns `a` in a state satisfying `Q a` or
  stops with `e` in a state satisfying `E e`.
* The rules, forward: `Triple.pure`, `Triple.stop`, `Triple.modify`, `Triple.get_bind`,
  `Triple.bind`, `Triple.seq`, `Triple.ite`, `Triple.conseq`, `Triple.and`, `Triple.pure_pre`,
  `Triple.exists_pre`, and `Triple.forRange` for a counted loop.
-/

set_option autoImplicit false

/-- How a run ends: with a value, or stopped early with a reason; and the state reached. -/
inductive Res (σ ε α : Type) where
  | ok (a : α) (s : σ)
  | stop (e : ε) (s : σ)

/-- Sequential programs over states `σ` that may stop early with a reason in `ε`. -/
def Prog (σ ε α : Type) : Type := σ → Res σ ε α

namespace Res

variable {σ ε α : Type}

/-- `r` satisfies `Q` if it returned and `E` if it stopped. -/
def Sat (Q : α → σ → Prop) (E : ε → σ → Prop) : Res σ ε α → Prop
  | .ok a s => Q a s
  | .stop e s => E e s

/-- The state a run ends in. -/
def state : Res σ ε α → σ
  | .ok _ s | .stop _ s => s

/-- Why a run stopped early, if it did. -/
def stopReason : Res σ ε α → Option ε
  | .ok _ _ => none
  | .stop e _ => some e

@[simp] theorem sat_ok {Q : α → σ → Prop} {E : ε → σ → Prop} {a : α} {s : σ} :
    (Res.ok a s).Sat Q E ↔ Q a s := Iff.rfl

@[simp] theorem sat_stop {Q : α → σ → Prop} {E : ε → σ → Prop} {e : ε} {s : σ} :
    (Res.stop e s : Res σ ε α).Sat Q E ↔ E e s := Iff.rfl

end Res

namespace Prog

variable {σ ε α β : Type}

/-- Run `m`, then `f` on its value; a stop ends the run. -/
protected def bind (m : Prog σ ε α) (f : α → Prog σ ε β) : Prog σ ε β := fun s =>
  match m s with
  | .ok a s' => f a s'
  | .stop e s' => .stop e s'

instance : Monad (Prog σ ε) where
  pure a := fun s => .ok a s
  bind := Prog.bind

/-- Read the state. -/
def get : Prog σ ε σ := fun s => .ok s s

/-- Change the state. -/
def modify (f : σ → σ) : Prog σ ε Unit := fun s => .ok () (f s)

/-- Stop with reason `e`. -/
def stop (e : ε) : Prog σ ε α := fun s => .stop e s

/-- Run `body 0`, …, `body (n - 1)` in this order. -/
def forRange (body : Nat → Prog σ ε Unit) : Nat → Prog σ ε Unit
  | 0 => pure ()
  | n + 1 => forRange body n >>= fun _ => body n

@[simp] theorem pure_apply (a : α) (s : σ) : (pure a : Prog σ ε α) s = .ok a s := rfl

theorem bind_apply (m : Prog σ ε α) (f : α → Prog σ ε β) (s : σ) :
    (m >>= f) s = match m s with
      | .ok a s' => f a s'
      | .stop e s' => .stop e s' := rfl

@[simp] theorem get_apply (s : σ) : (get : Prog σ ε σ) s = .ok s s := rfl

@[simp] theorem modify_apply (f : σ → σ) (s : σ) : (modify f : Prog σ ε Unit) s = .ok () (f s) :=
  rfl

@[simp] theorem stop_apply (e : ε) (s : σ) : (stop e : Prog σ ε α) s = .stop e s := rfl

/-! ## Triples -/

/-- **Total correctness** with a postcondition for each way to end. -/
def Triple (P : σ → Prop) (m : Prog σ ε α) (Q : α → σ → Prop) (E : ε → σ → Prop) : Prop :=
  ∀ s, P s → (m s).Sat Q E

namespace Triple

variable {P P' : σ → Prop} {m : Prog σ ε α} {Q Q' : α → σ → Prop} {E E' : ε → σ → Prop}

protected theorem pure {a : α} (h : ∀ s, P s → Q a s) : Triple P (pure a : Prog σ ε α) Q E := h

protected theorem stop {e : ε} (h : ∀ s, P s → E e s) : Triple P (stop e : Prog σ ε α) Q E := h

protected theorem modify {R : Unit → σ → Prop} {f : σ → σ} (h : ∀ s, P s → R () (f s)) :
    Triple P (modify f : Prog σ ε Unit) R E := h

/-- Reading the state: what follows may depend on the state read, which satisfies `P`. -/
theorem get_bind {f : σ → Prog σ ε α} (h : ∀ s₀, P s₀ → Triple P (f s₀) Q E) :
    Triple P (get >>= f) Q E := fun s hs => h s hs s hs

theorem bind {f : α → Prog σ ε β} {R : β → σ → Prop} (hm : Triple P m Q E)
    (hf : ∀ a, Triple (Q a) (f a) R E) : Triple P (m >>= f) R E := by
  intro s hs
  have h := hm s hs
  rw [bind_apply]
  cases hr : m s with
  | ok a s' =>
    rw [hr] at h
    exact hf a s' h
  | stop e s' =>
    rw [hr] at h
    exact h

/-- Sequencing a program whose value is not used. -/
theorem seq {m' : Prog σ ε β} {I : σ → Prop} {R : β → σ → Prop} (hm : Triple P m (fun _ => I) E)
    (hm' : Triple I m' R E) : Triple P (m >>= fun _ => m') R E :=
  hm.bind fun _ => hm'

theorem conseq (h : Triple P m Q E) (hp : ∀ s, P' s → P s) (hq : ∀ a s, Q a s → Q' a s)
    (he : ∀ e s, E e s → E' e s) : Triple P' m Q' E' := by
  intro s hs
  have := h s (hp s hs)
  cases hr : m s with
  | ok a s' =>
    rw [hr] at this
    exact hq a s' this
  | stop e s' =>
    rw [hr] at this
    exact he e s' this

theorem ite {c : Prop} [Decidable c] {m₁ m₂ : Prog σ ε α} (h₁ : c → Triple P m₁ Q E)
    (h₂ : ¬c → Triple P m₂ Q E) : Triple P (if c then m₁ else m₂) Q E := by
  by_cases hc : c
  · rw [if_pos hc]
    exact h₁ hc
  · rw [if_neg hc]
    exact h₂ hc

/-- Two properties of the same program, proved apart. -/
theorem and {Q₁ Q₂ : α → σ → Prop} {E₁ E₂ : ε → σ → Prop} (h₁ : Triple P m Q₁ E₁)
    (h₂ : Triple P m Q₂ E₂) :
    Triple P m (fun a s => Q₁ a s ∧ Q₂ a s) (fun e s => E₁ e s ∧ E₂ e s) := by
  intro s hs
  have a₁ := h₁ s hs
  have a₂ := h₂ s hs
  cases hr : m s with
  | ok a s' =>
    rw [hr] at a₁ a₂
    exact ⟨a₁, a₂⟩
  | stop e s' =>
    rw [hr] at a₁ a₂
    exact ⟨a₁, a₂⟩

/-- A fact about the program's arguments, assumed in the precondition. -/
theorem pure_pre {φ : Prop} (h : φ → Triple P m Q E) : Triple (fun s => φ ∧ P s) m Q E :=
  fun s hs => h hs.1 s hs.2

/-- A precondition with a parameter, proved for each value of it. -/
theorem exists_pre {β : Type} {P : β → σ → Prop} (h : ∀ x, Triple (P x) m Q E) :
    Triple (fun s => ∃ x, P x s) m Q E := fun s ⟨x, hx⟩ => h x s hx

/-- **Loop rule**: an invariant indexed by the number of turns done. -/
theorem forRange {body : Nat → Prog σ ε Unit} {I : Nat → σ → Prop} {n : Nat}
    (h : ∀ i, i < n → Triple (I i) (body i) (fun _ => I (i + 1)) E) :
    Triple (I 0) (Prog.forRange body n) (fun _ => I n) E := by
  induction n with
  | zero => exact fun _ h => h
  | succ n ih =>
    exact (ih fun i hi => h i (by omega)).bind fun _ => h n (by omega)

end Triple

end Prog
