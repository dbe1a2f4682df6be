import Mathlib.Data.List.Sort
import Mathlib.Data.List.Chain
import Mathlib.Tactic

/-!
# External sorting with bounded runs

Records are collected into runs that are sorted and deduplicated, and the runs
are merged in groups of bounded fan-in until one table is left. Whatever the
grouping, the table is strictly increasing and holds exactly the records that
were written.
-/

namespace SortedRuns

open List

variable {α : Type} [LinearOrder α]

def dedupFrom (previous : Option α) : List α → List α
  | [] => []
  | r :: rs => if previous = some r then dedupFrom previous rs else r :: dedupFrom (some r) rs

def sortRun (records : List α) : List α := dedupFrom none (records.insertionSort (· ≤ ·))

/-- The first minimal head among the cursors, and the cursors with it consumed. -/
def popMin : List (List α) → Option (α × List (List α))
  | [] => none
  | [] :: cursors => (popMin cursors).map fun p => (p.1, [] :: p.2)
  | (r :: rest) :: cursors =>
    match popMin cursors with
    | some (r', cursors') =>
      if r' < r then some (r', (r :: rest) :: cursors') else some (r, rest :: cursors)
    | none => some (r, rest :: cursors)

def recordCount (cursors : List (List α)) : ℕ := (cursors.map List.length).sum

theorem recordCount_popMin {cr cr' : List (List α)} {r : α}
    (h : popMin cr = some (r, cr')) : recordCount cr = recordCount cr' + 1 := by
  induction cr generalizing cr' r with
  | nil => cases h
  | cons c _ ih =>
    cases c with
    | nil =>
      obtain ⟨⟨r', cs'⟩, hp, he⟩ := Option.map_eq_some_iff.mp h
      cases he
      have := ih hp
      simpa [recordCount] using this
    | cons =>
      rw [popMin] at h
      split at h
      · next r' cs' hp =>
        split_ifs at h
        · cases h
          have := ih hp
          simp only [recordCount, map_cons, sum_cons] at this ⊢
          omega
        · cases h
          simp only [recordCount, map_cons, sum_cons, length_cons]
          omega
      · cases h
        simp only [recordCount, map_cons, sum_cons, length_cons]
        omega

/-- Merge a group of runs, dropping a record equal to the one written before. -/
def mergeLoop (previous : Option α) (cursors : List (List α)) : List α :=
  match _h : popMin cursors with
  | none => []
  | some (r, cursors') =>
    if previous = some r then mergeLoop previous cursors' else r :: mergeLoop (some r) cursors'
termination_by recordCount cursors
decreasing_by
  all_goals
    have := recordCount_popMin _h
    omega

def mergeGroup (runs : List (List α)) : List α := mergeLoop none runs

/-- `slice::chunks`; a size below one counts as one. -/
def chunks {β : Type} (size : ℕ) : List β → List (List β)
  | [] => []
  | b :: bs => (b :: bs.take (size - 1)) :: chunks size (bs.drop (size - 1))
termination_by l => l.length
decreasing_by
  simp only [List.length_drop, List.length_cons]
  omega

variable {β : Type}

theorem two_mul_length_chunks_le {size : ℕ} (h : 2 ≤ size) (l : List β) :
    2 * (chunks size l).length ≤ l.length + 1 := by
  induction l using chunks.induct size with
  | case1 => simp [chunks]
  | case2 _ bs ih =>
    rw [chunks]
    simp only [length_cons, length_drop] at ih ⊢
    rcases Nat.lt_or_ge bs.length (size - 1) with hl | hl
    · have hnil : bs.drop (size - 1) = [] := drop_eq_nil_of_le (by omega)
      simp [hnil, chunks]
    · omega

theorem flatten_chunks (size : ℕ) (l : List β) : (chunks size l).flatten = l := by
  induction l using chunks.induct size with
  | case1 => simp [chunks]
  | case2 _ _ ih => rw [chunks, flatten_cons, ih, cons_append, take_append_drop]

/-- Merge in groups of `fanIn` until no more than one group is left. -/
def mergeRuns (fanIn : ℕ) (hf : 2 ≤ fanIn) (runs : List (List α)) : List α :=
  if fanIn < runs.length then mergeRuns fanIn hf ((chunks fanIn runs).map mergeGroup)
  else mergeGroup runs
termination_by runs.length
decreasing_by
  have := two_mul_length_chunks_le hf runs
  simp only [List.length_map]
  omega

variable {p : Option α} {l : List α} {x : α}

theorem mem_of_mem_dedupFrom (h : x ∈ dedupFrom p l) : x ∈ l := by
  induction l generalizing p with
  | nil => cases h
  | cons _ _ ih =>
    rw [dedupFrom] at h
    split_ifs at h
    · exact mem_cons_of_mem _ (ih h)
    · rcases mem_cons.mp h with rfl | h
      · simp
      · exact mem_cons_of_mem _ (ih h)

theorem mem_dedupFrom_of_mem (h : x ∈ l) : p = some x ∨ x ∈ dedupFrom p l := by
  induction l generalizing p with
  | nil => cases h
  | cons r _ ih =>
    rw [dedupFrom]
    rcases mem_cons.mp h with rfl | h
    · split_ifs with hp
      · exact .inl hp
      · exact .inr (by simp)
    split_ifs with hp
    · exact ih h
    rcases ih (p := some r) h with h' | h'
    · cases h'
      exact .inr (by simp)
    · exact .inr (mem_cons_of_mem _ h')

theorem pairwise_dedupFrom (hl : l.Pairwise (· ≤ ·)) (hp : ∀ y ∈ p, ∀ x ∈ l, y ≤ x) :
    (dedupFrom p l).Pairwise (· < ·) ∧ ∀ y ∈ p, ∀ x ∈ dedupFrom p l, y < x := by
  induction l generalizing p with
  | nil => simp [dedupFrom]
  | cons r _ ih =>
    obtain ⟨hr, hrs⟩ := pairwise_cons.mp hl
    rw [dedupFrom]
    split_ifs with hpr
    · exact ih hrs fun y hy x hx => hp y hy x (mem_cons_of_mem _ hx)
    obtain ⟨h₁, h₂⟩ := ih (p := some r) hrs fun y hy x hx => by
      cases hy
      exact hr x hx
    refine ⟨pairwise_cons.mpr ⟨h₂ r rfl, h₁⟩, fun y hy x hx => ?_⟩
    have hyr := lt_of_le_of_ne (hp y hy r (by simp)) fun h => hpr (h ▸ hy)
    rcases mem_cons.mp hx with rfl | hx
    · exact hyr
    · exact lt_trans hyr (h₂ r rfl x hx)

theorem mem_sortRun {records : List α} : x ∈ sortRun records ↔ x ∈ records := by
  constructor
  · intro h
    exact (mem_insertionSort _).mp (mem_of_mem_dedupFrom h)
  intro h
  rcases mem_dedupFrom_of_mem (p := none) ((mem_insertionSort (· ≤ ·)).mpr h) with h' | h'
  · cases h'
  · exact h'

theorem pairwise_sortRun (r : List α) : (sortRun r).Pairwise (· < ·) :=
  (pairwise_dedupFrom (pairwise_insertionSort _ _) (by simp)).1

variable {cr runs : List (List α)}

theorem popMin_eq_none (h : popMin cr = none) : ∀ c ∈ cr, c = [] := by
  induction cr with
  | nil => simp
  | cons c _ ih =>
    cases c with
    | nil =>
      rw [popMin, Option.map_eq_none_iff] at h
      simpa using ih h
    | cons =>
      rw [popMin] at h
      split at h
      · split_ifs at h
      · cases h

theorem popMin_eq_some {cr' : List (List α)} {r : α}
    (h : popMin cr = some (r, cr')) (hs : ∀ c ∈ cr, c.Pairwise (· < ·)) :
    (∀ c ∈ cr', c.Pairwise (· < ·)) ∧ (∀ x, (∃ c ∈ cr', x ∈ c) → r ≤ x) ∧
      ∀ x, (∃ c ∈ cr, x ∈ c) ↔ x = r ∨ ∃ c ∈ cr', x ∈ c := by
  induction cr generalizing cr' r with
  | nil => cases h
  | cons c cs ih =>
    have hcs := fun c hc => hs c (mem_cons_of_mem _ hc)
    cases c with
    | nil =>
      obtain ⟨⟨r', cs'⟩, hp, he⟩ := Option.map_eq_some_iff.mp h
      cases he
      obtain ⟨h₁, h₂, h₃⟩ := ih hp hcs
      refine ⟨?_, ?_, ?_⟩
      · simpa using h₁
      · simpa using h₂
      · simpa using h₃
    | cons a rest =>
      obtain ⟨ha, hr⟩ := pairwise_cons.mp (hs (a :: rest) (by simp))
      rw [popMin] at h
      split at h
      · next r' cs' hp =>
        obtain ⟨h₁, h₂, h₃⟩ := ih hp hcs
        split_ifs at h with hlt
        · cases h
          refine ⟨?_, ?_, ?_⟩
          · exact forall_mem_cons.mpr ⟨hs _ (by simp), h₁⟩
          · rintro x ⟨c, hc, hx⟩
            rcases mem_cons.mp hc with rfl | hc
            · rcases mem_cons.mp hx with rfl | hx
              · exact hlt.le
              · exact (hlt.trans (ha x hx)).le
            · exact h₂ x ⟨c, hc, hx⟩
          · intro x
            simp only [exists_mem_cons_iff, h₃ x]
            tauto
        · cases h
          have hle := not_lt.mp hlt
          refine ⟨forall_mem_cons.mpr ⟨hr, hcs⟩, ?_, ?_⟩
          · rintro x ⟨c, hc, hx⟩
            rcases mem_cons.mp hc with rfl | hc
            · exact (ha x hx).le
            · rcases (h₃ x).mp ⟨c, hc, hx⟩ with rfl | hx
              · exact hle
              · exact hle.trans (h₂ x hx)
          · intro x
            rw [exists_mem_cons_iff, exists_mem_cons_iff, mem_cons]
            tauto
      · next hp =>
        cases h
        have hnil := popMin_eq_none hp
        refine ⟨forall_mem_cons.mpr ⟨hr, hcs⟩, ?_, ?_⟩
        · rintro x ⟨c, hc, hx⟩
          rcases mem_cons.mp hc with rfl | hc
          · exact (ha x hx).le
          · rw [hnil c hc] at hx
            cases hx
        · intro x
          rw [exists_mem_cons_iff, exists_mem_cons_iff, mem_cons]
          tauto

theorem mergeLoop_spec (p : Option α) (cr : List (List α))
    (hs : ∀ c ∈ cr, c.Pairwise (· < ·)) (hp : ∀ y ∈ p, ∀ c ∈ cr, ∀ x ∈ c, y ≤ x) :
    (mergeLoop p cr).Pairwise (· < ·) ∧ (∀ y ∈ p, ∀ x ∈ mergeLoop p cr, y < x) ∧
      ∀ x, x ∈ mergeLoop p cr ↔ (∃ c ∈ cr, x ∈ c) ∧ p ≠ some x := by
  induction p, cr using mergeLoop.induct with
  | case1 _ _ h =>
    rw [mergeLoop, h]
    refine ⟨Pairwise.nil, by simp, fun x => ?_⟩
    simp only [not_mem_nil, false_iff]
    rintro ⟨⟨c, hc, hx⟩, -⟩
    rw [popMin_eq_none h c hc] at hx
    cases hx
  | case2 _ _ _ h ih =>
    obtain ⟨h₁, h₂, h₃⟩ := popMin_eq_some h hs
    obtain ⟨i₁, i₂, i₃⟩ := ih h₁ fun y hy c hc x hx => by
      cases hy
      exact h₂ x ⟨c, hc, hx⟩
    rw [mergeLoop, h]
    simp only [if_true]
    refine ⟨i₁, i₂, fun x => ?_⟩
    rw [i₃ x, h₃ x]
    tauto
  | case3 p _ r _ h hpr ih =>
    obtain ⟨h₁, h₂, h₃⟩ := popMin_eq_some h hs
    obtain ⟨i₁, i₂, i₃⟩ := ih h₁ fun y hy c hc x hx => by
      cases hy
      exact h₂ x ⟨c, hc, hx⟩
    have hyr : ∀ y ∈ p, y < r := by
      intro y hy
      obtain ⟨c, hc, hr⟩ := (h₃ r).mpr (.inl rfl)
      exact lt_of_le_of_ne (hp y hy c hc r hr) fun he => hpr (he ▸ hy)
    rw [mergeLoop, h]
    simp only [hpr, if_false]
    refine ⟨pairwise_cons.mpr ⟨i₂ r rfl, i₁⟩, fun y hy x hx => ?_, fun x => ?_⟩
    · rcases mem_cons.mp hx with rfl | hx
      · exact hyr y hy
      · exact (hyr y hy).trans (i₂ r rfl x hx)
    rw [mem_cons, i₃ x, h₃ x]
    simp only [ne_eq, Option.some.injEq]
    constructor
    · rintro (rfl | ⟨hx, hne⟩)
      · exact ⟨.inl rfl, hpr⟩
      · refine ⟨.inr hx, fun he => ?_⟩
        exact absurd (h₂ x hx) (not_le.mpr (hyr x he))
    rintro ⟨rfl | hx, hne⟩
    · exact .inl rfl
    · by_cases hxr : r = x
      · exact .inl hxr.symm
      · exact .inr ⟨hx, hxr⟩

theorem mergeGroup_spec (hs : ∀ c ∈ runs, c.Pairwise (· < ·)) :
    (mergeGroup runs).Pairwise (· < ·) ∧ ∀ x, x ∈ mergeGroup runs ↔ ∃ c ∈ runs, x ∈ c := by
  obtain ⟨h₁, -, h₃⟩ := mergeLoop_spec none runs hs (by simp)
  exact ⟨h₁, fun x => by simpa [mergeGroup] using h₃ x⟩

theorem mergeRuns_spec {f : ℕ} (hf : 2 ≤ f) (hs : ∀ c ∈ runs, c.Pairwise (· < ·)) :
    (mergeRuns f hf runs).Pairwise (· < ·) ∧ ∀ x, x ∈ mergeRuns f hf runs ↔ ∃ c ∈ runs, x ∈ c := by
  fun_induction mergeRuns f hf runs with
  | case1 runs h ih =>
    have hgr : ∀ g ∈ chunks f runs, ∀ c ∈ g, c.Pairwise (· < ·) := by
      intro g hg c hc
      apply hs c
      rw [← flatten_chunks f runs]
      exact mem_flatten.mpr ⟨g, hg, hc⟩
    obtain ⟨i₁, i₂⟩ := ih fun c hc => by
      obtain ⟨g, hg, rfl⟩ := mem_map.mp hc
      exact (mergeGroup_spec (hgr g hg)).1
    refine ⟨i₁, fun x => ?_⟩
    rw [i₂ x]
    constructor
    · rintro ⟨c, hc, hx⟩
      obtain ⟨g, hg, rfl⟩ := mem_map.mp hc
      obtain ⟨c, hc, hx⟩ := ((mergeGroup_spec (hgr g hg)).2 x).mp hx
      refine ⟨c, ?_, hx⟩
      rw [← flatten_chunks f runs]
      exact mem_flatten.mpr ⟨g, hg, hc⟩
    · rintro ⟨c, hc, hx⟩
      rw [← flatten_chunks f runs] at hc
      obtain ⟨g, hg, hc⟩ := mem_flatten.mp hc
      exact ⟨mergeGroup g, mem_map_of_mem hg, ((mergeGroup_spec (hgr g hg)).2 x).mpr ⟨c, hc, hx⟩⟩
  | case2 runs h => exact mergeGroup_spec hs

end SortedRuns
