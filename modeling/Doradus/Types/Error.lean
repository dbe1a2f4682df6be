import Mathlib.Tactic

/-!
# Errors shared by the doradus crates
-/

namespace Doradus

inductive ErrorKind where
  | invalidInput
  | notFound
  | conflict
  | unsupported
  | io
  | protocol
  | storage
  | timeout
  | closed
  deriving DecidableEq, Repr

def ErrorKind.debug : ErrorKind → String
  | .invalidInput => "InvalidInput"
  | .notFound => "NotFound"
  | .conflict => "Conflict"
  | .unsupported => "Unsupported"
  | .io => "Io"
  | .protocol => "Protocol"
  | .storage => "Storage"
  | .timeout => "Timeout"
  | .closed => "Closed"

structure Error where
  kind : ErrorKind
  message : String
  deriving DecidableEq, Repr

def Error.invalid (message : String) : Error := ⟨.invalidInput, message⟩

def Error.display (e : Error) : String := e.kind.debug ++ ": " ++ e.message

abbrev Result (α : Type*) := Except Error α

def Result.ok? {α : Type*} : Result α → Option α
  | .ok a => some a
  | .error _ => none

variable {α : Type*}

theorem Result.exists_eq_ok {x : Result α} (h : x.ok?.isSome = true) : ∃ a, x = .ok a := by
  cases x with
  | ok a => exact ⟨a, rfl⟩
  | error => cases h

def Result.attach {α : Type*} : (x : Result α) → Result { a : α // x = .ok a }
  | .ok a => .ok ⟨a, rfl⟩
  | .error e => .error e

theorem Result.attach_eq_ok {x : Result α} {a : α} (h : x = .ok a) : x.attach = .ok ⟨a, h⟩ := by
  subst h
  rfl

instance {α : Type*} [DecidableEq α] : DecidableEq (Result α)
  | .ok a, .ok b => decidable_of_iff (a = b) (by simp)
  | .error a, .error b => decidable_of_iff (a = b) (by simp)
  | .ok _, .error _ => .isFalse (by simp)
  | .error _, .ok _ => .isFalse (by simp)

variable {ε α β : Type}

theorem Result.bind_eq_ok {x : Except ε α} {f : α → Except ε β} {b : β} :
    (x >>= f) = .ok b ↔ ∃ a, x = .ok a ∧ f a = .ok b := by
  cases x with
  | ok | error => simp [bind, Except.bind]

@[simp] theorem Result.ok_bind (a : α) (f : α → Except ε β) :
    ((.ok a : Except ε α) >>= f) = f a := rfl

/-- Why a function gives no value: it reports an error, or it panics. -/
inductive Fault where
  | error (e : Error)
  | panic
  deriving DecidableEq, Repr

abbrev Outcome (α : Type*) := Except Fault α

namespace Outcome

def invalid (message : String) : Outcome α := .error (.error (.invalid message))

/-- `l[i]`, which panics out of range. -/
def index (l : List α) (i : ℕ) : Outcome α :=
  match l[i]? with
  | some a => .ok a
  | none => .error .panic

/-- `l[start..stop]`, which panics out of range. -/
def slice (l : List α) (start stop : ℕ) : Outcome (List α) :=
  if start ≤ stop ∧ stop ≤ l.length then .ok ((l.take stop).drop start) else .error .panic

variable {l m : List α} {i s stop : ℕ} {a : α}

@[simp] theorem index_eq_ok : index l i = .ok a ↔ l[i]? = some a := by
  unfold index
  cases l[i]? <;> simp

@[simp] theorem slice_eq_ok :
    slice l s stop = .ok m ↔ (s ≤ stop ∧ stop ≤ l.length) ∧ (l.take stop).drop s = m := by
  unfold slice
  split_ifs with h <;> simp [h]

theorem slice_append {r : List α} (hs : s = l.length)
    (hst : stop = l.length + m.length) : slice (l ++ m ++ r) s stop = .ok m := by
  subst hs hst
  apply slice_eq_ok.mpr
  refine ⟨⟨Nat.le_add_right _ _, ?_⟩, ?_⟩
  · simp only [List.length_append]
    omega
  · rw [← List.length_append, List.take_left, List.drop_left]

@[simp] theorem invalid_ne_ok {m : String} : invalid m ≠ .ok a := nofun

def Safe (x : Outcome α) : Prop := x ≠ .error .panic

theorem safe_ok (a : α) : Safe (.ok a : Outcome α) := nofun

theorem safe_invalid (m : String) : Safe (invalid m : Outcome α) := nofun

theorem Safe.bind {β : Type} {x : Outcome α} {f : α → Outcome β} (hx : Safe x)
    (hf : ∀ a, x = .ok a → Safe (f a)) : Safe (x >>= f) := by
  cases x with
  | ok a => exact hf a rfl
  | error => exact fun h => hx (congrArg Except.error (Except.error.inj h))

theorem safe_index (h : i < l.length) : Safe (index l i) := by
  rw [index_eq_ok.mpr (List.getElem?_eq_getElem h)]
  exact safe_ok _

theorem safe_slice (h : s ≤ stop ∧ stop ≤ l.length) : Safe (slice l s stop) := by
  rw [slice, if_pos h]
  exact safe_ok _

/-- The computation does not panic, and its result has the property. -/
def Yields (x : Outcome α) (p : α → Prop) : Prop :=
  match x with
  | .ok a => p a
  | .error fault => fault ≠ .panic

variable {x : Outcome α} {k : α → Outcome β} {p : α → Prop} {q : β → Prop}

theorem yields_invalid (m : String) : (invalid m : Outcome α).Yields p := nofun

theorem Yields.safe (h : x.Yields p) : Safe x := by
  rintro rfl
  exact h rfl

theorem Yields.bind (hx : x.Yields p) (hk : ∀ a, p a → (k a).Yields q) : (x >>= k).Yields q := by
  cases x with
  | ok a => exact hk a hx
  | error => exact hx

theorem Yields.imp {p' : α → Prop} (hx : x.Yields p) (h : ∀ a, p a → p' a) : x.Yields p' := by
  cases x with
  | ok a => exact h a hx
  | error => exact hx

theorem Safe.yields (hx : Safe x) : x.Yields fun a => x = .ok a := by
  cases x with
  | ok => rfl
  | error => exact fun h => hx (congrArg Except.error h)

end Outcome

end Doradus
