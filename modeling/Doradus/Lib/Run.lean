import Mathlib.Tactic

/-!
# Runs of a machine whose inputs are chosen step by step

`step` is a function of the state and of everything the environment decides:
the operation, its arguments, clock readings, faults. A run is a list of such
inputs. `Meets C` says that every step of a run satisfies `C` in the state it
starts from.
-/

namespace Run

variable {σ α : Type*} (step : σ → α → σ)

def run (s : σ) (inputs : List α) : σ := inputs.foldl step s

def Meets (C : σ → α → Prop) : σ → List α → Prop
  | _, [] => True
  | s, a :: inputs => C s a ∧ Meets C (step s a) inputs

instance Meets.decidable (C : σ → α → Prop) [∀ s a, Decidable (C s a)] :
    (s : σ) → (inputs : List α) → Decidable (Meets step C s inputs)
  | _, [] => .isTrue trivial
  | s, a :: inputs => @instDecidableAnd _ _ _ (Meets.decidable C (step s a) inputs)

@[simp] theorem run_nil (s : σ) : run step s [] = s := rfl

@[simp] theorem run_cons (s : σ) (a : α) (inputs : List α) :
    run step s (a :: inputs) = run step (step s a) inputs := rfl

theorem run_append (s : σ) (first second : List α) :
    run step s (first ++ second) = run step (run step s first) second :=
  List.foldl_append ..

variable {C : σ → α → Prop} {P : σ → Prop}

theorem invariant (hst : ∀ s a, P s → C s a → P (step s a)) (inp : List α) (s : σ) (hs : P s)
    (h : Meets step C s inp) : P (run step s inp) := by
  induction inp generalizing s with
  | nil => exact hs
  | cons a _ ih => exact ih (step s a) (hst s a hs h.1) h.2

theorem invariant_of_forall (hst : ∀ s a, P s → P (step s a)) (inp : List α) (s : σ) (hs : P s) :
    P (run step s inp) := by
  induction inp generalizing s with
  | nil => exact hs
  | cons a _ ih => exact ih (step s a) (hst s a hs)

theorem invariant_counted {P : ℕ → σ → Prop} (hst : ∀ n s a, P n s → P (n + 1) (step s a))
    (inp : List α) (n : ℕ) (s : σ) (hs : P n s) : P (n + inp.length) (run step s inp) := by
  induction inp generalizing n s with
  | nil => exact hs
  | cons a _ ih =>
    have h := ih (n + 1) (step s a) (hst n s a hs)
    rw [List.length_cons, run_cons]
    rwa [Nat.add_assoc, Nat.add_comm 1] at h

theorem meets_iff_meets {C C' : σ → α → Prop} (hst : ∀ s a, P s → C s a → P (step s a))
    (hi : ∀ s a, P s → (C s a ↔ C' s a)) (inputs : List α) (s : σ) (hs : P s) :
    Meets step C s inputs ↔ Meets step C' s inputs := by
  induction inputs generalizing s with
  | nil => exact Iff.rfl
  | cons a _ ih =>
    have hc := hi s a hs
    constructor
    · rintro ⟨ha, hr⟩
      exact ⟨hc.mp ha, (ih (step s a) (hst s a hs ha)).mp hr⟩
    · rintro ⟨ha, hr⟩
      have ha' := hc.mpr ha
      exact ⟨ha', (ih (step s a) (hst s a hs ha')).mpr hr⟩

/-- Along the inputs that the condition allows, a state with the property is reached, whatever they
are, and until then there is always one of them. -/
inductive Inevitable (C : σ → α → Prop) (P : σ → Prop) : σ → Prop
  | here {s : σ} (h : P s) : Inevitable C P s
  | next {s : σ} (hs : ∃ a, C s a) (h : ∀ a, C s a → Inevitable C P (step s a)) : Inevitable C P s

/-- The rank falls with every input until the property holds. -/
theorem inevitable_of_rank {I : σ → Prop} (rank : σ → ℕ) (hC : ∀ s, I s → P s ∨ ∃ a, C s a)
    (hst : ∀ s a, I s → C s a → P (step s a) ∨ I (step s a) ∧ rank (step s a) < rank s) {s : σ}
    (hs : I s) : Inevitable step C P s := by
  induction hn : rank s using Nat.strong_induction_on generalizing s with
  | _ n ih =>
    rcases hC s hs with hp | ha
    · exact .here hp
    refine .next ha fun a ha => ?_
    rcases hst s a hs ha with hp | ⟨hi, hr⟩
    · exact .here hp
    · exact ih _ (hn ▸ hr) hi rfl

/-- What is inevitable is told by a property `G` that steps neither make nor break, and with which
the rank falls. -/
theorem inevitable_iff {I G : σ → Prop} (rank : σ → ℕ) (hI : ∀ s a, I s → C s a → I (step s a))
    (hP : ∀ s, I s → P s → G s) (hC : ∀ s, I s → G s → P s ∨ ∃ a, C s a)
    (hG : ∀ s a, I s → C s a → (G (step s a) ↔ G s))
    (hr : ∀ s a, I s → G s → C s a → rank (step s a) < rank s) {s : σ} (hs : I s) :
    Inevitable step C P s ↔ G s := by
  constructor
  · intro h
    induction h with
    | here hp => exact hP _ hs hp
    | next ha _ ih =>
      obtain ⟨a, ha⟩ := ha
      exact (hG _ a hs ha).1 (ih a ha (hI _ a hs ha))
  · intro hg
    refine inevitable_of_rank step (I := fun s => I s ∧ G s) rank (fun s h => hC s h.1 h.2)
      (fun s a h ha => .inr ⟨⟨hI s a h.1 ha, ?_⟩, hr s a h.1 h.2 ha⟩) ⟨hs, hg⟩
    exact (hG s a h.1 ha).2 h.2

/-- It is not inevitable where a way leads on and on past the property. -/
theorem not_inevitable {I : σ → Prop} (hP : ∀ s, I s → ¬ P s)
    (hst : ∀ s a, I s → C s a → ∃ a, C s a ∧ I (step s a)) {s : σ} (hs : I s) :
    ¬ Inevitable step C P s := by
  intro h
  induction h with
  | here hp => exact hP _ hs hp
  | next ha _ ih =>
    obtain ⟨a, ha⟩ := ha
    obtain ⟨b, hb, hi⟩ := hst _ _ hs ha
    exact ih b hb hi

/-- If the condition is exactly what a step needs to keep `P`, the runs that meet it are the runs
in which `P` always holds. `I` is an invariant that may be used on the way. -/
theorem meets_iff_always {I P : σ → Prop} (hI : ∀ s a, I s → I (step s a))
    (hi : ∀ s a, I s → P s → (P (step s a) ↔ C s a)) (inp : List α) (s : σ) (hs : I s) (hP : P s) :
    Meets step C s inp ↔ ∀ n, P (run step s (inp.take n)) := by
  induction inp generalizing s with
  | nil => simpa [Meets] using hP
  | cons a _ ih =>
    constructor
    · rintro ⟨ha, hr⟩ n
      have hn := (hi s a hs hP).mpr ha
      cases n with
      | zero => exact hP
      | succ n => exact (ih (step s a) (hI s a hs) hn).mp hr n
    · intro h
      have hn : P (step s a) := by simpa using h 1
      refine ⟨(hi s a hs hP).mp hn, (ih (step s a) (hI s a hs) hn).mpr fun n => ?_⟩
      simpa using h (n + 1)

/-- Inputs of one kind do not show in any state reached if and only if each of them meets the
condition under which it does nothing. -/
theorem meets_iff_unaffected {β : Type*} {p : α → Bool} {o : σ → β}
    (hst : ∀ s a, P s → P (step s a)) (ho : ∀ s a, p a = true → C s a)
    (hsk : ∀ s a, P s → p a = false → C s a → step s a = s)
    (hsh : ∀ s a, P s → p a = false → ¬ C s a → o (step s a) ≠ o s) (inp : List α) (s : σ)
    (hs : P s) :
    Meets step C s inp ↔ ∀ n, o (run step s (inp.take n)) =
      o (run step s ((inp.take n).filter p)) := by
  induction inp generalizing s with
  | nil => simp [Meets]
  | cons a _ ih =>
    cases hp : p a with
    | true =>
      rw [Meets, ih (step s a) (hst s a hs)]
      constructor
      · rintro ⟨-, hr⟩ n
        cases n with
        | zero => rfl
        | succ n => simpa [hp] using hr n
      · intro h
        refine ⟨ho s a hp, fun n => ?_⟩
        simpa [hp] using h (n + 1)
    | false =>
      constructor
      · rintro ⟨ha, hr⟩ n
        rw [hsk s a hs hp ha] at hr
        cases n with
        | zero => rfl
        | succ n => simpa [hp, hsk s a hs hp ha] using (ih s hs).mp hr n
      intro h
      have ha : C s a := by
        by_contra hn
        exact hsh s a hs hp hn (by simpa [hp] using h 1)
      refine ⟨ha, ?_⟩
      rw [hsk s a hs hp ha, ih s hs]
      intro n
      simpa [hp, hsk s a hs hp ha] using h (n + 1)

end Run
