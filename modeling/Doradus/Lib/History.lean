import Mathlib.Data.List.Basic

/-!
# What held when an event happened

A history is the list of the events so far, the latest last. `Whenever e P log` says
that the history before each occurrence of `e` satisfies `P`.
-/

namespace History

variable {ε : Type*} {event e : ε} {P : List ε → Prop} {log : List ε}

def Whenever (event : ε) (P : List ε → Prop) (log : List ε) : Prop :=
  ∀ before after, log = before ++ event :: after → P before

theorem Whenever.nil : Whenever event P [] := by
  intro b w h
  cases b with
  | nil | cons => cases h

theorem Whenever.concat (h : Whenever event P log) (hl : e = event → P log) :
    Whenever event P (log ++ [e]) := by
  intro b w hlog
  rcases List.eq_nil_or_concat' w with rfl | ⟨w, last, rfl⟩
  · obtain ⟨rfl, he⟩ := List.append_inj' hlog rfl
    exact hl (List.cons.inj he).1
  have hlog' : log ++ [e] = (b ++ event :: w) ++ [last] := by
    rw [hlog, List.append_assoc]
    rfl
  exact h b w (List.append_inj' hlog' rfl).1

theorem Whenever.other (h : Whenever event P log) (e : ε) (hne : e ≠ event) :
    Whenever event P (log ++ [e]) :=
  h.concat fun heq => absurd heq hne

end History
