import Doradus.Lib.Run

/-!
# Calls that share a state

Each call is at a stage, and it touches the shared state once on the way to the next one.
The scheduler chooses the call that goes on, the environment the outcome of what it does. A
call that has to wait stays where it is.
-/

inductive Call (ς ρ : Type) where
  | running (stage : ς)
  | returned (result : ρ)

namespace Call

variable {ς ρ : Type}

def isReturned : Call ς ρ → Bool
  | .running _ => false
  | .returned _ => true

/-- A measure of stages, nothing for a call that has returned. -/
def weight (f : ς → ℕ) : Call ς ρ → ℕ
  | .running stage => f stage
  | .returned _ => 0

def isAt (p : ς → Bool) : Call ς ρ → Bool
  | .running stage => p stage
  | .returned _ => false

def Ongoing (P : ς → Prop) : Call ς ρ → Prop
  | .running stage => P stage
  | .returned _ => False

end Call

structure Calls (σ ς ρ : Type) where
  shared : σ
  calls : List (Call ς ρ)

namespace Calls

variable {σ ς ρ κ χ : Type}

inductive Event (κ χ : Type) where
  | start (request : κ)
  | resume (index : ℕ) (choice : χ)

/-- The stage at which a call begins, and what it does at each stage; none if it has to wait. -/
structure Machine (σ ς ρ κ χ : Type) where
  enter : κ → ς
  exec : ℕ → χ → ς → σ → Option (Call ς ρ × σ)

def started (s : Calls σ ς ρ) (stage : ς) : Calls σ ς ρ := ⟨s.shared, s.calls ++ [.running stage]⟩

def moved (s : Calls σ ς ρ) (index : ℕ) (call : Call ς ρ) (shared : σ) : Calls σ ς ρ :=
  ⟨shared, s.calls.set index call⟩

def step (m : Machine σ ς ρ κ χ) (s : Calls σ ς ρ) : Event κ χ → Calls σ ς ρ
  | .start request => s.started (m.enter request)
  | .resume index choice =>
    match s.calls[index]? with
    | some (.running stage) =>
      match m.exec index choice stage s.shared with
      | some (call, shared) => s.moved index call shared
      | none => s
    | _ => s

def RunsAt (s : Calls σ ς ρ) (index : ℕ) (stage : ς) : Prop :=
  s.calls[index]? = some (.running stage)

def Quiet (s : Calls σ ς ρ) : Prop := ∀ call ∈ s.calls, call.isReturned = true

instance (s : Calls σ ς ρ) : Decidable s.Quiet := List.decidableBAll _ _

def anyAt (p : ς → Bool) (s : Calls σ ς ρ) : Bool := s.calls.any (Call.isAt p)

def weight (f : ς → ℕ) (s : Calls σ ς ρ) : ℕ := (s.calls.map (Call.weight f)).sum

variable {m : Machine σ ς ρ κ χ} {s : Calls σ ς ρ} {index i : ℕ} {stage stage' : ς}
  {call : Call ς ρ} {shared : σ}

inductive Effect (m : Machine σ ς ρ κ χ) (s : Calls σ ς ρ) : Event κ χ → Calls σ ς ρ → Prop
  | waits (e : Event κ χ) : Effect m s e s
  | starts (request : κ) : Effect m s (.start request) (s.started (m.enter request))
  | acts (index : ℕ) (choice : χ) (stage : ς) (call : Call ς ρ) (shared : σ)
      (hstage : s.RunsAt index stage)
      (hexec : m.exec index choice stage s.shared = some (call, shared)) :
      Effect m s (.resume index choice) (s.moved index call shared)

theorem step_effect {e : Event κ χ} {s' : Calls σ ς ρ} (h : step m s e = s') : Effect m s e s' := by
  subst h
  cases e with
  | start r => exact .starts r
  | resume index c =>
    unfold step
    dsimp only
    split
    · rename_i stage hs
      split
      · rename_i call shared he
        exact .acts index c stage call shared hs he
      · exact .waits _
    · exact .waits _

theorem Quiet.not_runsAt (h : s.Quiet) : ¬ s.RunsAt index stage := by
  intro hs
  have hr := h _ (List.mem_of_getElem? hs)
  cases hr

section

variable (h : s.RunsAt index stage)
include h

theorem RunsAt.eq_false {p : ς → Bool} (hn : s.anyAt p = false) : p stage = false := by
  have ha := List.any_eq_false.mp hn _ (List.mem_of_getElem? h)
  exact Bool.eq_false_of_not_eq_true ha

theorem RunsAt.unique (h' : s.RunsAt index stage') : stage = stage' := by
  have heq := Option.some.inj (h.symm.trans h')
  injection heq

end

theorem runsAt_started : (s.started stage).RunsAt i stage' ↔
      s.RunsAt i stage' ∨ (i = s.calls.length ∧ stage' = stage) := by
  unfold RunsAt started
  rcases Nat.lt_trichotomy i s.calls.length with hlt | rfl | hgt
  · simp [List.getElem?_append_left hlt, hlt.ne]
  · simp [eq_comm]
  have hn : (s.calls ++ [Call.running stage])[i]? = none := by
    rw [List.getElem?_eq_none_iff, List.length_append, List.length_singleton]
    omega
  simp [hn, List.getElem?_eq_none hgt.le, hgt.ne']

theorem runsAt_moved (hs : s.RunsAt index stage) : (s.moved index call shared).RunsAt i stage' ↔
      (i = index ∧ call = .running stage') ∨ (i ≠ index ∧ s.RunsAt i stage') := by
  unfold RunsAt moved
  by_cases hi : i = index
  · subst hi
    simp [(List.getElem?_eq_some_iff.mp hs).1]
  · simp [hi, Ne.symm hi]

/-- A property of the shared state, and of the shared state and each stage of a call. -/
structure Upholds (P : σ → Prop) (Q : σ → ℕ → ς → Prop) (s : Calls σ ς ρ) : Prop where
  shared : P s.shared
  stages : ∀ i stage, s.RunsAt i stage → Q s.shared i stage

variable {P : ς → Prop} {Q : σ → ℕ → ς → Prop}

theorem Upholds.started {P : σ → Prop} (h : s.Upholds P Q)
    (hs : Q s.shared s.calls.length stage) : (s.started stage).Upholds P Q := by
  refine ⟨h.shared, fun i o ho => ?_⟩
  rcases runsAt_started.mp ho with hb | ⟨rfl, rfl⟩
  · exact h.stages i o hb
  · exact hs

theorem Upholds.moved {P : σ → Prop} (hst : s.RunsAt index stage)
    (hs : P shared) (hc : ∀ next, call = .running next → Q shared index next)
    (ho : ∀ i o, i ≠ index → s.RunsAt i o → Q shared i o) :
    (s.moved index call shared).Upholds P Q := by
  refine ⟨hs, fun i o hot => ?_⟩
  rcases (runsAt_moved hst).mp hot with ⟨rfl, hn⟩ | ⟨hne, hb⟩
  · exact hc o hn
  · exact ho i o hne hb

theorem exists_moved_of_ongoing (sh : σ) (hs : s.RunsAt index stage)
    (h : call.Ongoing P) : ∃ i stage, (s.moved index call sh).RunsAt i stage ∧ P stage := by
  cases call with
  | running next => exact ⟨index, next, (runsAt_moved hs).mpr (Or.inl ⟨rfl, rfl⟩), h⟩
  | returned => cases h

theorem exists_moved_of_not (call : Call ς ρ) (sh : σ)
    (hs : s.RunsAt index stage) (hn : ¬ P stage) (h : ∃ i stage, s.RunsAt i stage ∧ P stage) :
    ∃ i stage, (s.moved index call sh).RunsAt i stage ∧ P stage := by
  obtain ⟨i, o, ho, hP⟩ := h
  refine ⟨i, o, (runsAt_moved hs).mpr (Or.inr ⟨?_, ho⟩), hP⟩
  rintro rfl
  exact hn (hs.unique ho ▸ hP)

theorem exists_started (st : ς) (h : ∃ i st, s.RunsAt i st ∧ P st) :
    ∃ i st', (s.started st).RunsAt i st' ∧ P st' := by
  obtain ⟨i, o, ho, hP⟩ := h
  exact ⟨i, o, runsAt_started.mpr (Or.inl ho), hP⟩

theorem weight_started (f : ς → ℕ) : (s.started stage).weight f = s.weight f + f stage := by
  simp [weight, started, Call.weight]

theorem sum_map_set {α : Type} (f : α → ℕ) {l : List α} {a b : α} (h : l[i]? = some a) :
    ((l.set i b).map f).sum + f a = (l.map f).sum + f b := by
  induction l generalizing i with
  | nil => cases h
  | cons c _ ih =>
    cases i with
    | zero =>
      obtain rfl : c = a := by simpa using h
      simp only [List.set_cons_zero, List.map_cons, List.sum_cons]
      omega
    | succ i =>
      have hr := ih (i := i) (by simpa using h)
      simp only [List.set_cons_succ, List.map_cons, List.sum_cons]
      omega

theorem weight_moved (f : ς → ℕ) (call : Call ς ρ) (sh : σ) (hs : s.RunsAt index stage) :
    (s.moved index call sh).weight f + f stage = s.weight f + call.weight f :=
  sum_map_set (Call.weight f) hs

theorem le_weight (f : ς → ℕ) (hs : s.RunsAt index stage) : f stage ≤ s.weight f :=
  List.single_le_sum (by simp) _ (List.mem_map.mpr ⟨_, List.mem_of_getElem? hs, rfl⟩)

theorem weight_eq_zero (f : ς → ℕ) (h : ∀ index stage, s.RunsAt index stage → f stage = 0) :
    s.weight f = 0 := by
  unfold weight
  rw [List.sum_eq_zero_iff]
  intro n hn
  obtain ⟨call, hc, rfl⟩ := List.mem_map.mp hn
  cases call with
  | running stage =>
    obtain ⟨index, hi⟩ := List.getElem?_of_mem hc
    exact h index stage hi
  | returned => rfl

end Calls
