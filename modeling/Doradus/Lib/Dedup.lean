import Mathlib.Tactic

/-!
# Removing neighbours that count as the same
-/

namespace Dedup

open List

variable {α : Type}

/-- The rest of `Vec::dedup_by` after the element kept last. -/
def dropSame (same : α → α → Bool) (last : α) : List α → List α
  | [] => []
  | a :: l => if same a last then dropSame same last l else a :: dropSame same a l

/-- `Vec::dedup_by`: of a run of equal neighbours the first stays. -/
def dedupBy (same : α → α → Bool) : List α → List α
  | [] => []
  | a :: l => a :: dropSame same a l

variable {same : α → α → Bool} {a : α} {l : List α}

theorem mem_of_mem_dropSame {last : α} (h : a ∈ dropSame same last l) : a ∈ l := by
  induction l generalizing last with
  | nil => cases h
  | cons _ _ ih =>
    rw [dropSame] at h
    split_ifs at h
    · exact mem_cons_of_mem _ (ih h)
    · rcases mem_cons.mp h with rfl | h
      · simp
      · exact mem_cons_of_mem _ (ih h)

theorem mem_of_mem_dedupBy (h : a ∈ dedupBy same l) : a ∈ l := by
  cases l with
  | nil => cases h
  | cons =>
    rcases mem_cons.mp h with rfl | h
    · simp
    · exact mem_cons_of_mem _ (mem_of_mem_dropSame h)

theorem exists_same_dropSame (same : α → α → Bool) (last : α) (h : a ∈ l) :
    same a last = true ∨ ∃ b ∈ dropSame same last l, b = a ∨ same a b = true := by
  induction l generalizing last with
  | nil => cases h
  | cons c _ ih =>
    rw [dropSame]
    rcases mem_cons.mp h with rfl | h
    · split_ifs with hs
      · exact .inl hs
      · exact .inr ⟨a, by simp, .inl rfl⟩
    split_ifs with hs
    · exact ih last h
    · rcases ih c h with hc | ⟨b, hb, hab⟩
      · exact .inr ⟨c, by simp, .inr hc⟩
      · exact .inr ⟨b, mem_cons_of_mem _ hb, hab⟩

theorem exists_same_dedupBy (same : α → α → Bool) (h : a ∈ l) :
    ∃ b ∈ dedupBy same l, b = a ∨ same a b = true := by
  cases l with
  | nil => cases h
  | cons c =>
    rcases mem_cons.mp h with rfl | h
    · exact ⟨a, by simp [dedupBy], .inl rfl⟩
    · rcases exists_same_dropSame same c h with hc | ⟨b, hb, hab⟩
      · exact ⟨c, by simp [dedupBy], .inr hc⟩
      · exact ⟨b, by simp [dedupBy, hb], hab⟩

theorem forall_mem_dedupBy {P : α → Prop} (hP : ∀ a b, same a b = true → (P a ↔ P b))
    : (∀ a ∈ dedupBy same l, P a) ↔ ∀ a ∈ l, P a := by
  constructor
  · intro h a ha
    obtain ⟨b, hb, rfl | hab⟩ := exists_same_dedupBy same ha
    · exact h _ hb
    · exact (hP a b hab).mpr (h b hb)
  · exact fun h a ha => h a (mem_of_mem_dedupBy ha)

end Dedup
