import Mathlib.Tactic

/-!
# Arithmetic that saturates

A result together with whether all the operations on the way to it were exact. Where the
bounds are known, an operation is its plain counterpart.
-/

structure Saturating (α : Type) where
  value : α
  isExact : Bool

namespace Saturating

variable {α β : Type}

instance : Monad Saturating where
  pure a := ⟨a, true⟩
  bind x f := ⟨(f x.value).value, x.isExact && (f x.value).isExact⟩

@[simp] theorem pure_bind_eq (a : α) (f : α → Saturating β) :
    ((pure a : Saturating α) >>= f) = f a := by
  change Saturating.mk (f a).value (true && (f a).isExact) = f a
  rw [Bool.true_and]

@[simp] theorem value_pure (a : α) : (pure a : Saturating α).value = a := rfl

variable (bound a b : ℕ)

def add : Saturating ℕ := ⟨min (a + b) bound, a + b ≤ bound⟩

def mul : Saturating ℕ := ⟨min (a * b) bound, a * b ≤ bound⟩

def sub : Saturating ℕ := ⟨a - b, b ≤ a⟩

variable {bound a b}

theorem add_eq_pure (h : a + b ≤ bound) : add bound a b = pure (a + b) := by
  simp [add, h, pure]

theorem mul_eq_pure (h : a * b ≤ bound) : mul bound a b = pure (a * b) := by
  simp [mul, h, pure]

theorem sub_eq_pure (h : b ≤ a) : sub a b = pure (a - b) := by
  simp [sub, h, pure]

end Saturating
