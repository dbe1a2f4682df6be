import Mathlib.Order.Lex
import Mathlib.Tactic

/-!
# Binary searches over a list of keys

Three loops as programs write them: the lower bound, the search that stops at an equal key, and the
branch-free search of the Rust standard library. On a sorted list all three are exact; on any list
the last one never invents a key.
-/

namespace BinarySearch

variable {α : Type} [LinearOrder α]

/-- The first index whose key is not below `key`, searched in `[low, high)`.
The result is `none` when a read leaves the list. -/
def lowerBound (keys : List α) (key : α) (low high : ℕ) : Option ℕ :=
  if low < high then
    let middle := low + (high - low) / 2
    match keys[middle]? with
    | none => none
    | some k =>
      if k < key then lowerBound keys key (middle + 1) high else lowerBound keys key low middle
  else some low
termination_by high - low

/-- Whether `key` is met on the way, searching in `[low, high)`. -/
def contains (keys : List α) (key : α) (low high : ℕ) : Bool :=
  if low < high then
    let middle := low + (high - low) / 2
    match keys[middle]? with
    | none => false
    | some k =>
      if k < key then contains keys key (middle + 1) high
      else if key < k then contains keys key low middle
      else true
  else false
termination_by high - low

/-- The loop of `slice::binary_search_by`: it never stops early. -/
def baseLoop (keys : List α) (key : α) (base size : ℕ) : ℕ :=
  if 1 < size then
    let half := size / 2
    let mid := base + half
    let base := match keys[mid]? with
      | some k => if key < k then base else mid
      | none => base
    baseLoop keys key base (size - half)
  else base
termination_by size

/-- Whether `slice::binary_search_by` returns `Ok`. -/
def found (keys : List α) (key : α) : Bool := keys[baseLoop keys key 0 keys.length]? == some key

variable {keys : List α} (hs : keys.Pairwise (· < ·))
include hs

theorem getElem_le_of_pairwise {i j : ℕ} {a b : α}
    (hi : keys[i]? = some a) (hj : keys[j]? = some b) (hij : i ≤ j) : a ≤ b := by
  obtain ⟨hi', rfl⟩ := List.getElem?_eq_some_iff.mp hi
  obtain ⟨hj', rfl⟩ := List.getElem?_eq_some_iff.mp hj
  rcases hij.lt_or_eq with hlt | rfl
  · exact (List.pairwise_iff_getElem.mp hs i j hi' hj' hlt).le
  · exact le_rfl

theorem lowerBound_spec (key : α) (low high : ℕ)
    (hlh : low ≤ high) (hh : high ≤ keys.length) (hl : ∀ i a, i < low → keys[i]? = some a → a < key)
    (hhg : ∀ i a, high ≤ i → keys[i]? = some a → key ≤ a) :
    ∃ n, lowerBound keys key low high = some n ∧ (∀ i a, i < n → keys[i]? = some a → a < key) ∧
      (∀ i a, n ≤ i → keys[i]? = some a → key ≤ a) := by
  induction low, high using lowerBound.induct keys key with
  | case1 _ _ _ middle hm =>
    have : middle < keys.length := by omega
    simp [List.getElem?_eq_getElem this] at hm
  | case2 low high h middle _ hm hk ih =>
    rw [lowerBound, if_pos h]
    simp only [show low + (high - low) / 2 = middle from rfl, hm, if_pos hk]
    refine ih (by omega) hh (fun i a hi ha => ?_) hhg
    exact (getElem_le_of_pairwise hs ha hm (by omega)).trans_lt hk
  | case3 low high h middle _ hm hk ih =>
    rw [lowerBound, if_pos h]
    simp only [show low + (high - low) / 2 = middle from rfl, hm, if_neg hk]
    refine ih (by omega) (by omega) hl (fun i a hi ha => ?_)
    exact (not_lt.mp hk).trans (getElem_le_of_pairwise hs hm ha hi)
  | case4 low high h =>
    rw [lowerBound, if_neg h]
    obtain rfl : low = high := by omega
    exact ⟨low, rfl, hl, hhg⟩

theorem contains_spec (key : α) (low high : ℕ) (hh : high ≤ keys.length) :
    contains keys key low high = true ↔ ∃ i, low ≤ i ∧ i < high ∧ keys[i]? = some key := by
  induction low, high using contains.induct keys key with
  | case1 _ _ _ middle hm =>
    have : middle < keys.length := by omega
    simp [List.getElem?_eq_getElem this] at hm
  | case2 low high h middle _ hm hk ih =>
    rw [contains, if_pos h]
    simp only [show low + (high - low) / 2 = middle from rfl, hm, if_pos hk]
    rw [ih hh]
    constructor
    · rintro ⟨i, h₁, h₂, hi⟩
      exact ⟨i, by omega, h₂, hi⟩
    rintro ⟨i, h₁, h₂, hi⟩
    refine ⟨i, ?_, h₂, hi⟩
    by_contra hc
    exact absurd (getElem_le_of_pairwise hs hi hm (by omega)) (not_le.mpr hk)
  | case3 low high h middle _ hm hk hk' ih =>
    rw [contains, if_pos h]
    simp only [show low + (high - low) / 2 = middle from rfl, hm, if_neg hk, if_pos hk']
    rw [ih (by omega)]
    constructor
    · rintro ⟨i, h₁, h₂, hi⟩
      exact ⟨i, h₁, by omega, hi⟩
    rintro ⟨i, h₁, h₂, hi⟩
    refine ⟨i, h₁, ?_, hi⟩
    by_contra hc
    exact absurd (getElem_le_of_pairwise hs hm hi (by omega)) (not_le.mpr hk')
  | case4 low high h middle k hm hk hk' =>
    rw [contains, if_pos h]
    simp only [show low + (high - low) / 2 = middle from rfl, hm, if_neg hk, if_neg hk', true_iff]
    obtain rfl : k = key := le_antisymm (not_lt.mp hk') (not_lt.mp hk)
    exact ⟨middle, by omega, by omega, hm⟩
  | case5 _ _ h =>
    rw [contains, if_neg h]
    simp only [Bool.false_eq_true, false_iff]
    rintro ⟨i, h₁, h₂, -⟩
    omega

theorem contains_iff (key : α) : contains keys key 0 keys.length = true ↔ key ∈ keys := by
  rw [contains_spec hs key 0 keys.length le_rfl, List.mem_iff_getElem?]
  constructor
  · rintro ⟨i, -, -, hi⟩
    exact ⟨i, hi⟩
  · rintro ⟨i, hi⟩
    exact ⟨i, by omega, (List.getElem?_eq_some_iff.mp hi).1, hi⟩

end BinarySearch
