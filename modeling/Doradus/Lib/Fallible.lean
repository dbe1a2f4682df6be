import Mathlib.Tactic

/-!
# Stateful computations that may stop with an error

The state reached when an error stops the computation is kept: nothing is
rolled back unless the computation itself does so. A triple therefore has two
postconditions, one for the value returned and one for the state left by an
error.
-/

def Fallible (ε σ α : Type) := σ → Except ε α × σ

namespace Fallible

variable {ε σ τ α β : Type}

instance : Monad (Fallible ε σ) where
  pure a := fun s => (.ok a, s)
  bind x k := fun s =>
    match x s with
    | (.ok a, s') => k a s'
    | (.error e, s') => (.error e, s')

def throw (e : ε) : Fallible ε σ α := fun s => (.error e, s)

def get : Fallible ε σ σ := fun s => (.ok s, s)

def modify (g : σ → σ) : Fallible ε σ Unit := fun s => (.ok (), g s)

def ofExcept (r : Except ε α) : Fallible ε σ α := fun s => (r, s)

def focus (part : τ → σ) (put : τ → σ → τ) (x : Fallible ε σ α) : Fallible ε τ α := fun t =>
  ((x (part t)).1, put t (x (part t)).2)

theorem bind_apply (x : Fallible ε σ α) (k : α → Fallible ε σ β) (s : σ) :
    (x >>= k) s = match x s with
      | (.ok a, s') => k a s'
      | (.error e, s') => (.error e, s') := rfl

variable {x : Fallible ε σ α}

@[simp] theorem get_apply (s : σ) : (get : Fallible ε σ σ) s = (.ok s, s) := rfl

/-- From a state with `P` the computation returns a value with `Q` or stops in
a state with `E`. -/
def Triple (P : σ → Prop) (x : Fallible ε σ α) (Q : α → σ → Prop) (E : σ → Prop) : Prop :=
  ∀ s, P s →
    match x s with
    | (.ok a, s') => Q a s'
    | (.error _, s') => E s'

variable {P P' E E' : σ → Prop} {Q Q' : α → σ → Prop} {R : β → σ → Prop}

theorem Triple.conseq (h : Triple P x Q E) (hP : ∀ s, P' s → P s) (hQ : ∀ a s, Q a s → Q' a s)
    (hE : ∀ s, E s → E' s) : Triple P' x Q' E' := by
  intro s hs
  have hx := h s (hP s hs)
  rcases hr : x s with ⟨r, s'⟩
  rw [hr] at hx
  cases r with
  | ok a => exact hQ a s' hx
  | error => exact hE s' hx

theorem Triple.pure {a : α} (h : ∀ s, P s → Q a s) : Triple P (Pure.pure a : Fallible ε σ α) Q E :=
  fun s hs => h s hs

theorem Triple.throw {e : ε} (h : ∀ s, P s → E s) : Triple P (throw e : Fallible ε σ α) Q E :=
  fun s hs => h s hs

theorem Triple.modify {g : σ → σ} {Q : Unit → σ → Prop} (h : ∀ s, P s → Q () (g s)) :
    Triple P (modify g : Fallible ε σ Unit) Q E :=
  fun s hs => h s hs

variable {k : α → Fallible ε σ β}

theorem Triple.bind (hx : Triple P x Q E) (hk : ∀ a, Triple (Q a) (k a) R E) :
    Triple P (x >>= k) R E := by
  intro s hs
  have h := hx s hs
  rw [bind_apply]
  rcases hr : x s with ⟨r, s'⟩
  rw [hr] at h
  cases r with
  | ok a => exact hk a s' h
  | error => exact h

theorem Triple.bind_fact {φ : α → Prop} (hx : Triple P x (fun a s => P' s ∧ φ a) E)
    (hk : ∀ a, φ a → Triple P' (k a) R E) :
    Triple P (x >>= k) R E :=
  hx.bind fun a s hs => hk a hs.2 s hs.1

theorem Triple.get_bind {k : σ → Fallible ε σ β} (h : ∀ s, P s → Triple (· = s) (k s) R E) :
    Triple P (get >>= k) R E := by
  intro s hs
  rw [bind_apply, get_apply]
  exact h s hs s rfl

variable {r : Except ε α}

theorem Triple.ofExcept (hok : ∀ a, r = .ok a → ∀ s, P s → Q a s)
    (he : ∀ e, r = .error e → ∀ s, P s → E s) : Triple P (ofExcept r : Fallible ε σ α) Q E := by
  intro s hs
  cases r with
  | ok a => exact hok a rfl s hs
  | error e => exact he e rfl s hs

theorem Triple.ofExcept_bind (he : ∀ s, P s → E s) (hok : ∀ a, r = .ok a → Triple P (k a) R E) :
    Triple P ((Fallible.ofExcept r : Fallible ε σ α) >>= k) R E := by
  intro s hs
  cases r with
  | ok a => exact hok a rfl s hs
  | error => exact he s hs

/-- A check that leaves the state alone. -/
theorem Triple.check (h : ∀ a, Triple P (k a) R P) :
    Triple P ((Fallible.ofExcept r : Fallible ε σ α) >>= k) R P :=
  .ofExcept_bind (fun _ h => h) fun a _ => h a

theorem Triple.ok_bind {a : α} (hr : r = .ok a) (h : Triple P (k a) R E) :
    Triple P ((Fallible.ofExcept r : Fallible ε σ α) >>= k) R E := by
  rw [hr]
  exact h

theorem Triple.exists_ok (h : Triple P x Q fun _ => False) {s : σ} (hs : P s) :
    ∃ a s', x s = (.ok a, s') ∧ Q a s' := by
  have hx := h s hs
  rcases hr : x s with ⟨r, s'⟩
  rw [hr] at hx
  cases r with
  | ok a => exact ⟨a, s', rfl, hx⟩
  | error => exact hx.elim

end Fallible
