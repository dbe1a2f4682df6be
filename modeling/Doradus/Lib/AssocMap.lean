import Mathlib.Data.List.Nodup
import Mathlib.Data.List.Perm.Basic
import Mathlib.Algebra.BigOperators.Group.List.Basic
import Mathlib.Tactic

/-!
# Finite maps with an unspecified iteration order

A hash map is a duplicate-free association list. Lookups depend only on the set of entries; whoever
iterates receives the entries through an `IterOrder`, an arbitrary permutation, so no result can
rely on one particular order. `Inverse addr fwd rev` says that `rev` sends an address exactly to
the key whose entry in `fwd` carries it.
-/

namespace AssocMap

/-- The order in which a hash container hands out its entries: any permutation. -/
structure IterOrder where
  toFun : {α : Type} → List α → List α
  perm : ∀ {α : Type} (l : List α), (toFun l).Perm l

instance : CoeFun IterOrder (fun _ => {α : Type} → List α → List α) := ⟨IterOrder.toFun⟩

def IterOrder.stored : IterOrder := ⟨fun l => l, fun _ => List.Perm.refl _⟩

variable {α : Type}

@[simp] theorem IterOrder.mem (ord : IterOrder) (l : List α) (a : α) :
    a ∈ ord l ↔ a ∈ l := (ord.perm l).mem_iff

@[simp] theorem IterOrder.length (ord : IterOrder) (l : List α) :
    (ord l).length = l.length := (ord.perm l).length_eq

end AssocMap

structure AssocMap (K : Type*) (V : Type*) where
  entries : List (K × V)
  nodup : (entries.map Prod.fst).Nodup
  deriving Repr, DecidableEq

namespace AssocMap

variable {K V : Type*}

def empty : AssocMap K V := ⟨[], by simp⟩

instance : EmptyCollection (AssocMap K V) := ⟨empty⟩
instance : Inhabited (AssocMap K V) := ⟨empty⟩

def size (m : AssocMap K V) : ℕ := m.entries.length

def keys (m : AssocMap K V) : List K := m.entries.map Prod.fst

def retain (m : AssocMap K V) (p : K → V → Bool) : AssocMap K V :=
  ⟨m.entries.filter fun e => p e.1 e.2, m.nodup.sublist (List.filter_sublist.map Prod.fst)⟩

def total (m : AssocMap K V) (f : K → V → ℕ) : ℕ := (m.entries.map fun e => f e.1 e.2).sum

@[simp] theorem size_empty : (∅ : AssocMap K V).size = 0 := rfl

theorem size_retain_le (m : AssocMap K V) (p : K → V → Bool) : (m.retain p).size ≤ m.size :=
  List.length_filter_le _ _

theorem total_retain_add (m : AssocMap K V) (f : K → V → ℕ) (p : K → V → Bool) :
    (m.retain p).total f + (m.retain fun k v => !p k v).total f = m.total f := by
  simp only [total, retain]
  induction m.entries with
  | nil => rfl
  | cons e =>
    cases hp : p e.1 e.2 with
    | false =>
      simp only [List.filter_cons, hp, Bool.not_false, if_true, Bool.false_eq_true, if_false,
        List.map_cons, List.sum_cons]
      omega
    | true =>
      simp only [List.filter_cons, hp, Bool.not_true, if_true, Bool.false_eq_true, if_false,
        List.map_cons, List.sum_cons]
      omega

theorem size_le_of_keys {m m' : AssocMap K V} (h : ∀ k ∈ m.keys, k ∈ m'.keys) :
    m.size ≤ m'.size := by
  have hle := (m.nodup.subperm h).length_le
  rwa [keys, List.length_map, List.length_map] at hle

variable [DecidableEq K]

def get? (m : AssocMap K V) (k : K) : Option V := m.entries.lookup k

def contains (m : AssocMap K V) (k : K) : Bool := (m.get? k).isSome

def erase (m : AssocMap K V) (k : K) : AssocMap K V := m.retain fun k' _ => k' ≠ k

def insert (m : AssocMap K V) (k : K) (v : V) : AssocMap K V :=
  ⟨(k, v) :: (m.erase k).entries, by
    refine List.nodup_cons.mpr ⟨?_, (m.erase k).nodup⟩
    simp [erase, retain]⟩

def modify (m : AssocMap K V) (k : K) (f : V → V) : AssocMap K V :=
  ⟨m.entries.map fun e => if e.1 = k then (e.1, f e.2) else e, by
    have h : ((m.entries.map fun e => if e.1 = k then (e.1, f e.2) else e).map Prod.fst) =
        m.entries.map Prod.fst := by
      rw [List.map_map]
      apply List.map_congr_left
      intro e _
      by_cases hk : e.1 = k <;> simp [hk]
    rw [h]
    exact m.nodup⟩

theorem lookup_eq_some_iff_mem {l : List (K × V)} (h : (l.map Prod.fst).Nodup) (k : K) (v : V) :
    l.lookup k = some v ↔ (k, v) ∈ l := by
  induction l with
  | nil => simp
  | cons e _ ih =>
    obtain ⟨k', v'⟩ := e
    rw [List.map_cons, List.nodup_cons] at h
    by_cases hk : k = k'
    · subst k'
      simp only [List.lookup_cons, beq_self_eq_true, Option.some.injEq, List.mem_cons,
        Prod.mk.injEq, true_and]
      constructor
      · intro hv
        exact Or.inl hv.symm
      · rintro (hv | hv)
        · exact hv.symm
        · exact absurd (List.mem_map_of_mem (f := Prod.fst) hv) h.1
    · have hb : (k == k') = false := by simpa using hk
      simp [List.lookup_cons, hb, ih h.2, hk]

variable (m : AssocMap K V)

theorem get?_eq_some_iff (k : K) (v : V) : m.get? k = some v ↔ (k, v) ∈ m.entries :=
  lookup_eq_some_iff_mem m.nodup k v

theorem get?_eq_none_iff (k : K) : m.get? k = none ↔ k ∉ m.keys := by
  rw [Option.eq_none_iff_forall_ne_some]
  simp only [ne_eq, get?_eq_some_iff, keys, List.mem_map, Prod.exists, exists_and_right,
    exists_eq_right, not_exists]

theorem mem_keys_iff (k : K) : k ∈ m.keys ↔ ∃ v, m.get? k = some v := by
  simp [keys, get?_eq_some_iff]

theorem contains_iff (k : K) : m.contains k = true ↔ ∃ v, m.get? k = some v :=
  Option.isSome_iff_exists

theorem contains_eq_false_iff (k : K) : m.contains k = false ↔ m.get? k = none := by
  rw [contains, Option.isSome_eq_false_iff, Option.isNone_iff_eq_none]

@[simp] theorem get?_empty (k : K) : (∅ : AssocMap K V).get? k = none := rfl

theorem get?_retain (p : K → V → Bool) (k : K) : (m.retain p).get? k = (m.get? k).filter (p k) := by
  ext v
  rw [get?_eq_some_iff, Option.filter_eq_some_iff, get?_eq_some_iff]
  simp [retain]

theorem get?_erase (k k' : K) : (m.erase k).get? k' = if k' = k then none else m.get? k' := by
  rw [erase, get?_retain]
  by_cases h : k' = k
  · cases hg : m.get? k' <;> simp [h]
  · cases hg : m.get? k' <;> simp [h]

@[simp] theorem get?_erase_self (k : K) : (m.erase k).get? k = none := by
  simp [get?_erase]

theorem get?_erase_of_ne {k k' : K} (h : k' ≠ k) : (m.erase k).get? k' = m.get? k' := by
  simp [get?_erase, h]

theorem get?_insert (k k' : K) (v : V) :
    (m.insert k v).get? k' = if k' = k then some v else m.get? k' := by
  by_cases h : k' = k
  · subst k'
    simp [insert, get?]
  · have hb : (k' == k) = false := by simpa using h
    rw [if_neg h, ← get?_erase_of_ne m h]
    simp [insert, get?, List.lookup_cons, hb]

variable {m : AssocMap K V} {k k' : K} {v : V}

theorem of_get?_insert {v' : V}
    (h : (m.insert k v).get? k' = some v') : k' = k ∧ v = v' ∨ m.get? k' = some v' := by
  rw [get?_insert] at h
  split_ifs at h with hk
  · exact .inl ⟨hk, Option.some.inj h⟩
  · exact .inr h

theorem of_get?_erase (h : (m.erase k).get? k' = some v) : k' ≠ k ∧ m.get? k' = some v := by
  rw [get?_erase] at h
  split_ifs at h with hk
  exact ⟨hk, h⟩

variable (m : AssocMap K V)

@[simp] theorem get?_insert_self (k : K) (v : V) : (m.insert k v).get? k = some v := by
  simp [get?_insert]

theorem get?_insert_of_ne {k' : K} (v : V) (h : k' ≠ k) : (m.insert k v).get? k' = m.get? k' := by
  simp [get?_insert, h]

theorem contains_insert (k k' : K) (v : V) :
    (m.insert k v).contains k' = true ↔ k' = k ∨ m.contains k' = true := by
  rw [contains, contains, get?_insert]
  split <;> simp [*]

theorem contains_erase (k k' : K) :
    (m.erase k).contains k' = true ↔ k' ≠ k ∧ m.contains k' = true := by
  rw [contains, contains, get?_erase]
  split <;> simp [*]

theorem get?_modify (k k' : K) (f : V → V) :
    (m.modify k f).get? k' = if k' = k then (m.get? k').map f else m.get? k' := by
  ext v
  rw [get?_eq_some_iff]
  by_cases h : k' = k
  · subst k'
    simp only [↓reduceIte, Option.map_eq_some_iff, get?_eq_some_iff, modify, List.mem_map,
      Prod.exists]
    constructor
    · rintro ⟨a, b, hm, he⟩
      by_cases ha : a = k
      · subst a
        simp only [↓reduceIte, Prod.mk.injEq, true_and] at he
        exact ⟨b, hm, he⟩
      · rw [if_neg ha, Prod.mk.injEq] at he
        exact absurd he.1 ha
    · rintro ⟨b, hm, rfl⟩
      exact ⟨k, b, hm, by simp⟩
  · rw [if_neg h, get?_eq_some_iff]
    simp only [modify, List.mem_map, Prod.exists]
    constructor
    · rintro ⟨a, b, hm, he⟩
      by_cases ha : a = k
      · rw [if_pos ha, Prod.mk.injEq] at he
        exact absurd (he.1.symm.trans ha) h
      · rw [if_neg ha] at he
        obtain ⟨rfl, rfl⟩ := he
        exact hm
    · intro hm
      exact ⟨k', v, hm, by simp [h]⟩

@[simp] theorem size_modify (k : K) (f : V → V) : (m.modify k f).size = m.size := by
  simp [size, modify]

theorem erase_entries_of_none (h : m.get? k = none) : (m.erase k).entries = m.entries := by
  apply List.filter_eq_self.mpr
  rintro ⟨a, b⟩ hm
  have hk : a ≠ k := by
    rintro rfl
    rw [(get?_eq_some_iff m a b).mpr hm] at h
    cases h
  simpa using hk

theorem entries_perm_erase (h : m.get? k = some v) :
    m.entries.Perm ((k, v) :: (m.erase k).entries) := by
  have hm := (get?_eq_some_iff m k v).mp h
  apply (List.perm_ext_iff_of_nodup m.nodup.of_map ?_).mpr
  · rintro ⟨a, b⟩
    by_cases ha : a = k
    · subst a
      constructor
      · intro hb
        have hg := (get?_eq_some_iff m k b).mpr hb
        rw [h] at hg
        cases hg
        simp
      intro hb
      simp only [erase, retain, List.mem_cons, Prod.mk.injEq, true_and, List.mem_filter, ne_eq,
        not_true_eq_false, decide_false, Bool.false_eq_true, and_false, or_false] at hb
      rw [hb]
      exact hm
    · simp [erase, retain, ha]
  · exact (m.insert k v).nodup.of_map

theorem size_erase (h : m.get? k = some v) : (m.erase k).size + 1 = m.size := by
  have hp := (m.entries_perm_erase h).length_eq
  exact hp.symm

theorem size_erase_of_none (h : m.get? k = none) : (m.erase k).size = m.size := by
  rw [size, m.erase_entries_of_none h, size]

@[simp] theorem size_insert_eq (k : K) (v : V) : (m.insert k v).size = (m.erase k).size + 1 := by
  simp [insert, size]

theorem size_insert_of_none (v : V) (h : m.get? k = none) : (m.insert k v).size = m.size + 1 := by
  rw [size_insert_eq, m.size_erase_of_none h]

theorem size_insert (k : K) (v : V) :
    (m.insert k v).size = m.size + if m.contains k then 0 else 1 := by
  cases hk : m.get? k with
  | none => simp [contains, hk, m.size_erase_of_none hk]
  | some => simpa [contains, hk] using m.size_erase hk

theorem size_erase_add (k : K) : ((m.erase k).size + if m.contains k then 1 else 0) = m.size := by
  cases hk : m.get? k with
  | none => simp [contains, hk, m.size_erase_of_none hk]
  | some => simpa [contains, hk] using m.size_erase hk

theorem size_insert_le (k : K) (v : V) : (m.insert k v).size ≤ m.size + 1 := by
  exact Nat.succ_le_succ (m.size_retain_le _)

theorem total_erase (f : K → V → ℕ) (h : m.get? k = some v) :
    f k v + (m.erase k).total f = m.total f := by
  have hp := ((m.entries_perm_erase h).map fun e => f e.1 e.2).sum_eq
  simpa [total] using hp.symm

theorem total_insert_of_none (f : K → V → ℕ) (v : V) (h : m.get? k = none) :
    (m.insert k v).total f = f k v + m.total f := by
  simp [total, insert, m.erase_entries_of_none h]

theorem total_insert (f : K → V → ℕ) (k : K) (v : V) :
    (m.insert k v).total f + (m.get? k).elim 0 (f k) = m.total f + f k v := by
  have hi : (m.insert k v).total f = f k v + (m.erase k).total f := by simp [total, insert]
  cases h : m.get? k with
  | none =>
    rw [m.total_insert_of_none f v h, Option.elim_none]
    omega
  | some =>
    have he := m.total_erase f h
    rw [Option.elim_some]
    omega

theorem erase_modify (k : K) (g : V → V) : (m.modify k g).erase k = m.erase k := by
  have hl : ((m.modify k g).erase k).entries = (m.erase k).entries := by
    simp only [erase, retain, modify, List.filter_map]
    have hf : m.entries.filter ((fun e : K × V => decide (e.1 ≠ k)) ∘
        fun e => if e.1 = k then (e.1, g e.2) else e) =
        m.entries.filter fun e => decide (e.1 ≠ k) := by
      apply List.filter_congr
      intro e _
      by_cases hk : e.1 = k <;> simp [hk]
    rw [hf]
    conv_rhs => rw [← List.map_id (m.entries.filter _)]
    apply List.map_congr_left
    intro e he
    have hk : e.1 ≠ k := by simpa using (List.mem_filter.mp he).2
    simp [hk]
  cases hm : (m.modify k g).erase k
  cases hm' : m.erase k
  rw [hm, hm'] at hl
  cases hl
  rfl

theorem total_modify (f : K → V → ℕ) (g : V → V) (h : m.get? k = some v) :
    (m.modify k g).total f + f k v = m.total f + f k (g v) := by
  have hg : (m.modify k g).get? k = some (g v) := by simp [get?_modify, h]
  have he : ((m.modify k g).erase k).total f = (m.erase k).total f := by rw [erase_modify]
  have h₁ := (m.modify k g).total_erase f hg
  have h₂ := m.total_erase f h
  omega

variable {A : Type*} [DecidableEq A] {addr : K → V → A} {fwd : AssocMap K V} {rev : AssocMap A K}

def Inverse (addr : K → V → A) (fwd : AssocMap K V) (rev : AssocMap A K) : Prop :=
  ∀ k a, (∃ v, fwd.get? k = some v ∧ addr k v = a) ↔ rev.get? a = some k

theorem Inverse.empty : Inverse addr (∅ : AssocMap K V) (∅ : AssocMap A K) := by
  simp [Inverse]

variable (h : Inverse addr fwd rev)
include h

variable {g : V → V}

theorem Inverse.get?_rev (hk : fwd.get? k = some v) : rev.get? (addr k v) = some k :=
  (h k _).mp ⟨v, hk, rfl⟩

theorem Inverse.get?_fwd {a : A} (ha : rev.get? a = some k) :
    ∃ v, fwd.get? k = some v ∧ addr k v = a :=
  (h k a).mpr ha

theorem Inverse.eq_of_addr_eq {k' : K} {v' : V} (hk : fwd.get? k = some v)
    (hk' : fwd.get? k' = some v') (ha : addr k v = addr k' v') :
    k = k' := by
  have hr := h.get?_rev hk
  rw [ha, h.get?_rev hk'] at hr
  exact (Option.some.inj hr).symm

theorem Inverse.erase (hk : fwd.get? k = some v) :
    Inverse addr (fwd.erase k) (rev.erase (addr k v)) := by
  intro k' a
  rw [get?_erase, get?_erase]
  by_cases hk' : k' = k
  · subst hk'
    rw [if_pos rfl]
    constructor
    · intro he
      obtain ⟨_, he, _⟩ := he
      cases he
    intro hr
    split_ifs at hr with ha
    obtain ⟨v', hv', rfl⟩ := h.get?_fwd hr
    rw [hk] at hv'
    cases hv'
    exact absurd rfl ha
  · rw [if_neg hk']
    by_cases ha : a = addr k v
    · rw [if_pos ha]
      constructor
      · intro he
        obtain ⟨v', hv', he⟩ := he
        exact absurd (h.eq_of_addr_eq hv' hk (he.trans ha)) hk'
      · intro hr
        cases hr
    · rw [if_neg ha]
      exact h k' a

theorem Inverse.insert (hr : ∀ k', rev.get? (addr k v) = some k' → k' = k)
    (hf : ∀ v', fwd.get? k = some v' → addr k v' = addr k v) :
    Inverse addr (fwd.insert k v) (rev.insert (addr k v) k) := by
  intro k' a
  rw [get?_insert, get?_insert]
  by_cases hk' : k' = k
  · subst hk'
    by_cases ha : a = addr k' v
    · simp [ha]
    simp only [if_true, Option.some.injEq, if_neg ha]
    constructor
    · intro he
      obtain ⟨_, rfl, he⟩ := he
      exact absurd he.symm ha
    · intro hg
      obtain ⟨v', hv', rfl⟩ := h.get?_fwd hg
      exact absurd (hf v' hv') ha
  · rw [if_neg hk']
    by_cases ha : a = addr k v
    · rw [if_pos ha, h k' a, ha]
      constructor
      · intro hg
        exact absurd (hr k' hg) hk'
      · intro hg
        exact absurd (Option.some.inj hg).symm hk'
    · rw [if_neg ha]
      exact h k' a

theorem Inverse.modify (hg : ∀ v, addr k (g v) = addr k v) : Inverse addr (fwd.modify k g) rev := by
  intro k' a
  rw [get?_modify, ← h k' a]
  by_cases hk' : k' = k
  · subst hk'
    rw [if_pos rfl]
    constructor
    · intro he
      obtain ⟨v, hv, rfl⟩ := he
      obtain ⟨v', hv', rfl⟩ := Option.map_eq_some_iff.mp hv
      exact ⟨v', hv', (hg v').symm⟩
    · intro he
      obtain ⟨v, hv, rfl⟩ := he
      exact ⟨g v, by rw [hv]; rfl, hg v⟩
  · rw [if_neg hk']

theorem Inverse.rebind (hk : fwd.get? k = some v)
    (hr : ∀ k', rev.get? (addr k (g v)) = some k' → k' = k) :
    Inverse addr (fwd.modify k g) ((rev.erase (addr k v)).insert (addr k (g v)) k) := by
  have he := h.erase hk
  have hi : Inverse addr ((fwd.erase k).insert k (g v))
      ((rev.erase (addr k v)).insert (addr k (g v)) k) := by
    apply he.insert
    · intro k' hk'
      rw [get?_erase] at hk'
      split_ifs at hk'
      exact hr k' hk'
    · intro _ hv'
      rw [get?_erase_self] at hv'
      cases hv'
  intro k' a
  rw [← hi k' a, get?_modify, get?_insert, get?_erase]
  by_cases hk' : k' = k
  · simp [hk', hk]
  · simp [hk']

end AssocMap
