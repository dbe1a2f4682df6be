import Doradus.Store.FakeIpPool

/-!
# What a pool operation can do

An `Effect` is one committed store transaction together with the change of the memory that follows
it, or a change of the memory alone. Whatever happens in `allocate_at`, `release` and
`flush_touches`, early returns and store failures included, is a sequence of effects.
-/

namespace Doradus

open FakeIpPool PoolState ConfigStore List AssocMap

open Fallible (Triple)
open Relation (ReflTransGen)

variable {f : Family}

/-- The address chosen for a new mapping, and why it is free to take. -/
inductive Selected (pool : FakeIpPool f) (s : PoolState f) : Address f → Option DomainName → Prop
  | free {a : Address f} (hsize : s.forward.size < pool.options.maxEntries)
      (hreverse : s.reverse.get? a = none) (hreserved : s.reserved.get? a = none)
      (hrange : pool.config.Contains a) : Selected pool s a none
  | evict {d : DomainName} {m : Mapping f} (hsize : pool.options.maxEntries ≤ s.forward.size)
      (hforward : s.forward.get? d = some m) : Selected pool s m.address (some d)

inductive Effect (pool : FakeIpPool f) : World f → World f → Prop
  | fault {w : World f} {store : ConfigStore} (htables : store.tables = w.store.tables) :
      Effect pool w { w with store := store }
  | retain (w : World f) (now : Int64) :
      Effect pool w { w with memory := w.memory.retainReserved now pool.options.ttlSeconds }
  | forget {w : World f} (domains : List DomainName) {store : ConfigStore} (htables : store.tables =
        (w.store.tables.deleteDomains pool.scope (domains.map DomainName.text)).2) :
      Effect pool w ⟨w.memory.forgetAll domains, store⟩
  | use {w : World f} {d : DomainName} {m : Mapping f} {now : Int64}
      (hforward : w.memory.forward.get? d = some m)
      (hrecent : saturatingSub now m.persistedLastUsedAt < pool.options.touchIntervalSeconds) :
      Effect pool w { w with memory := w.memory.modifyMapping d fun m =>
        { m with lastUsedAt := now } }
  | touch {w : World f} {d : DomainName} {now : Int64} {store : ConfigStore}
      (htables : store.tables = (w.store.tables.touchDomains pool.scope [(d.text, now)]).2) :
      Effect pool w ⟨w.memory.modifyMapping d fun m =>
        { m with persistedLastUsedAt := now, lastUsedAt := now }, store⟩
  | flush {w : World f} (ord : AssocMap.IterOrder) {store : ConfigStore}
      (htables : store.tables = (w.store.tables.touchDomains pool.scope
        ((FakeIpPool.pendingTouches ord w.memory).map fun e => (e.1.text, e.2.lastUsedAt))).2) :
      Effect pool w ⟨((FakeIpPool.pendingTouches ord w.memory).map
        fun e => (e.1.text, e.2.lastUsedAt)).foldl FakeIpPool.settle w.memory, store⟩
  | assign {w : World f} {d : DomainName} {a : Address f} {evicted : Option DomainName}
      {now : Int64} {store : ConfigStore} (hnew : w.memory.forward.get? d = none)
      (hselected : Selected pool w.memory a evicted)
      (htables : w.store.tables.replaceEntry (pool.entryRecord d a now now)
        (pool.cursorRecord (pool.candidate a 1) now) (evicted.map DomainName.text) =
          .ok ((), store.tables)) :
      Effect pool w ⟨{ (w.memory.forgetAll evicted.toList).record d ⟨a, now, now, now⟩
        with next := pool.candidate a 1 }, store⟩

variable {a : Address f} {α : Type} {w : World f} {d : DomainName} {now : Int64}
  {P : World f → Prop} (pool : FakeIpPool f) (s : PoolState f)

theorem size_eq_stop_sub_start :
    pool.size = pool.config.stop.toNat - pool.config.start.toNat + 1 := by
  have h := pool.size_eq
  have hle := pool.start_le
  unfold FakeIpConfig.size at h
  cases f with
  | v4 =>
    simp only [Except.ok.injEq] at h
    rw [← h, BitVec.toNat_sub_of_le hle]
  | v6 =>
    simp only at h
    split_ifs at h
    simp only [Except.ok.injEq] at h
    exact h.symm

theorem contains_candidate (base : Address f) (o : ℕ) :
    pool.config.Contains (pool.candidate base o) := by
  have hs := size_eq_stop_sub_start pool
  have hle := pool.start_le
  have hm : ((base - pool.config.start).toNat + o) % 2 ^ f.scanBits % pool.size < pool.size :=
    Nat.mod_lt _ (by omega)
  unfold FakeIpConfig.Contains candidate
  rw [BitVec.toNat_add, BitVec.toNat_ofNat,
    Nat.mod_eq_of_lt (b := 2 ^ f.bits) (a := _ % pool.size) (by omega), Nat.mod_eq_of_lt (by omega)]
  omega

theorem scan_eq_some {r o : ℕ} (h : pool.scan s r o = some a) :
    s.reverse.get? a = none ∧ s.reserved.get? a = none ∧ pool.config.Contains a := by
  induction r generalizing o with
  | zero => cases h
  | succ _ ih =>
    rw [scan] at h
    split_ifs at h with hf
    · cases h
      simp only [contains_eq_false_iff] at hf
      exact ⟨hf.1, hf.2, contains_candidate pool _ _⟩
    · exact ih h

theorem mem_of_foldl_choice {c : Option α → α → Option α} {x : α}
    (hc : ∀ best e, c best e = some x → best = some x ∨ e = x) (l : List α)
    (best : Option α) (h : l.foldl c best = some x) : best = some x ∨ x ∈ l := by
  induction l generalizing best with
  | nil => exact .inl h
  | cons e _ ih =>
    rcases ih _ h with hch | hmem
    · rcases hc best e hch with hb | rfl
      · exact .inl hb
      · exact .inr mem_cons_self
    · exact .inr (mem_cons_of_mem e hmem)

theorem leastRecent_mem {l : List (DomainName × Mapping f)} {e : DomainName × Mapping f}
    (h : leastRecent l = some e) : e ∈ l := by
  apply (mem_of_foldl_choice _ l none h).resolve_left (Option.some_ne_none e).symm
  intro best x hx
  cases best with
  | none => exact .inr (Option.some.inj hx)
  | some =>
    dsimp only at hx
    split_ifs at hx
    · exact .inr (Option.some.inj hx)
    · exact .inl hx

theorem selectAddress_ok (ord : IterOrder) {evicted : Option DomainName}
    (h : pool.selectAddress ord s = .ok (a, evicted)) : Selected pool s a evicted := by
  unfold selectAddress at h
  by_cases hsz : pool.options.maxEntries ≤ s.forward.size
  · rw [if_pos hsz] at h
    cases hl : leastRecent (ord s.forward.entries) with
    | none =>
      rw [hl] at h
      cases h
    | some =>
      rw [hl] at h
      cases h
      have hmem := leastRecent_mem hl
      rw [IterOrder.mem] at hmem
      exact .evict hsz ((s.forward.get?_eq_some_iff _ _).mpr hmem)
  · rw [if_neg hsz] at h
    cases hs : pool.scan s pool.size 0 with
    | none =>
      rw [hs] at h
      cases h
    | some =>
      rw [hs] at h
      cases h
      obtain ⟨hr, hv, hc⟩ := scan_eq_some pool s hs
      exact .free (by omega) hr hv hc

theorem forward_forget (d d' : DomainName) :
    (s.forget d).forward.get? d' = if d' = d then none else s.forward.get? d' := by
  unfold forget
  cases h : s.forward.get? d with
  | some => exact get?_erase _ _ _
  | none =>
    by_cases hd : d' = d
    · rw [if_pos hd, hd, h]
    · rw [if_neg hd]

theorem forward_forgetAll (dm : List DomainName) (d : DomainName) :
    (s.forgetAll dm).forward.get? d = if d ∈ dm then none else s.forward.get? d := by
  induction dm generalizing s with
  | nil => simp [forgetAll]
  | cons x dm ih =>
    change ((s.forget x).forgetAll dm).forward.get? d = _
    rw [ih, forward_forget]
    by_cases hd : d ∈ dm
    · simp [hd]
    · by_cases hx : d = x <;> simp [hd, hx]

theorem onStore_triple {x : StoreM α} {t : Tables} {Q : α → ConfigStore → Prop}
    {E : ConfigStore → Prop} (h : Triple (fun s => s.tables = t) x Q E) (m : PoolState f) :
    Triple (fun w : World f => w.memory = m ∧ w.store.tables = t) (onStore x)
      (fun a w => w.memory = m ∧ Q a w.store) (fun w => w.memory = m ∧ E w.store) := by
  intro w hw
  have hx := h w.store hw.2
  unfold onStore Fallible.focus
  rcases hr : x w.store with ⟨r, st⟩
  rw [hr] at hx
  cases r with
  | ok | error => exact ⟨hw.1, hx⟩

abbrev Reaches (w₀ w : World f) : Prop := ReflTransGen (Effect pool) w₀ w

variable {pool} {w₀ w₁ : World f}

section

variable (h : Reaches pool w₀ w₁) {x : StoreM α} {Q : α → ConfigStore → Prop}
include h

theorem Reaches.fault (hm : w.memory = w₁.memory)
    (ht : w.store.tables = w₁.store.tables) : Reaches pool w₀ w := by
  have he : w = { w₁ with store := w.store } := by rw [← hm]
  rw [he]
  exact h.tail (.fault ht)

theorem Reaches.onStore
    (hx : Triple (fun s => s.tables = w₁.store.tables) x Q fun s => s.tables = w₁.store.tables) :
    Triple (fun w => w = w₁) (Doradus.onStore x)
      (fun a w => w.memory = w₁.memory ∧ Q a w.store) (Reaches pool w₀) := by
  apply (onStore_triple hx w₁.memory).conseq
  · intro w hw
    exact ⟨congrArg World.memory hw, congrArg (fun w => w.store.tables) hw⟩
  · intro _ _ hw
    exact hw
  · intro w hw
    exact h.fault hw.1 hw.2

/-- A store access and then the change of the memory that goes with it. -/
theorem Reaches.commit {β : Type}
    {g : World f → World f} {k : α → β}
    (hx : Triple (fun s => s.tables = w₁.store.tables) x Q fun s => s.tables = w₁.store.tables)
    (hg : ∀ a w, w.memory = w₁.memory → Q a w.store → Effect pool w₁ (g w)) :
    Triple (fun w => w = w₁)
      (Doradus.onStore x >>= fun a => Fallible.modify g >>= fun _ => pure (k a))
      (fun _ w => Reaches pool w₀ w) (Reaches pool w₀) := by
  apply Triple.bind (h.onStore hx)
  intro a
  apply Triple.bind
  · apply Triple.modify (Q := fun _ w => Reaches pool w₀ w)
    intro w hw
    exact h.tail (hg a w hw.1 hw.2)
  · intro _
    exact Triple.pure fun w hw => hw

theorem forgetDomains_triple (d : List DomainName) : Triple (fun w => w = w₁) (pool.forgetDomains d)
      (fun _ w => Reaches pool w₀ w ∧ w.memory = w₁.memory.forgetAll d) (Reaches pool w₀) := by
  apply Triple.bind
  · exact h.onStore (deleteFakeipEntries_triple pool.scope _)
  intro _
  apply Triple.modify
  intro w hw
  refine ⟨?_, by rw [hw.1]⟩
  rw [hw.1]
  exact h.tail (.forget d hw.2)

theorem refresh_triple {m : Mapping f} (hm : w₁.memory.forward.get? d = some m) :
    Triple (fun w => w = w₁) (pool.refresh d m now) (fun _ w => Reaches pool w₀ w)
      (Reaches pool w₀) := by
  unfold refresh
  by_cases hd : pool.options.touchIntervalSeconds ≤ saturatingSub now m.persistedLastUsedAt
  · rw [if_pos hd]
    apply h.commit (touchFakeipEntries_triple pool.scope _)
    intro _ w hm' ht
    rw [hm']
    exact .touch ht
  rw [if_neg hd]
  apply Triple.bind
  · apply Triple.modify (Q := fun _ w => Reaches pool w₀ w)
    intro w hw
    subst hw
    exact h.tail (.use hm (by rwa [← Int64.not_le]))
  · intro _
    exact Triple.pure fun w hw => hw

end

theorem dropExpired_triple (ord : IterOrder) (d : DomainName) (now : Int64) :
    Triple (fun w => Reaches pool w₀ w ∧ w.memory.forward.get? d = none) (pool.dropExpired ord now)
      (fun _ w => Reaches pool w₀ w ∧ w.memory.forward.get? d = none) (Reaches pool w₀) := by
  apply Triple.get_bind
  intro w₁ h₁
  by_cases he : pool.expiredDomains ord w₁.memory now = []
  · rw [if_pos he]
    apply Triple.pure
    intro w hw
    rwa [hw]
  rw [if_neg he]
  apply (forgetDomains_triple h₁.1 _).conseq (fun _ h => h) _ (fun _ h => h)
  intro _ w hw
  refine ⟨hw.1, ?_⟩
  rw [hw.2, forward_forgetAll, h₁.2]
  split_ifs <;> rfl

theorem allocateFresh_triple (ord : IterOrder) (d : DomainName) (now : Int64) :
    Triple (fun w => Reaches pool w₀ w ∧ w.memory.forward.get? d = none)
      (pool.allocateFresh ord d now) (fun _ w => Reaches pool w₀ w) (Reaches pool w₀) := by
  apply Triple.bind (dropExpired_triple ord d now)
  intro _
  apply Triple.get_bind
  intro w₁ h₁
  apply Triple.bind (Q := fun sl w => w = w₁ ∧ Selected pool w₁.memory sl.1 sl.2)
  · apply Triple.ofExcept
    · intro sl hs w hw
      exact ⟨hw, selectAddress_ok pool _ ord hs⟩
    · intro e _ w hw
      rw [hw]
      exact h₁.1
  · intro sl w hw
    refine h₁.1.commit (replaceFakeipEntry_triple _ _ _) ?_ w hw.1
    intro _ w hm ht
    rw [hm]
    exact .assign h₁.2 hw.2 ht

theorem allocateAt_triple (ord : IterOrder) (d : DomainName) (now : Int64) :
    Triple (Reaches pool w₀) (pool.allocateAt ord d now) (fun _ w => Reaches pool w₀ w)
      (Reaches pool w₀) := by
  apply Triple.bind (Q := fun _ w => Reaches pool w₀ w)
  · apply Triple.modify
    intro w hw
    exact hw.tail (.retain w now)
  intro _
  apply Triple.get_bind
  intro w₁ h₁
  cases hm : w₁.memory.forward.get? d with
  | none =>
    apply (allocateFresh_triple ord d now).conseq _ (fun _ _ h => h) (fun _ h => h)
    intro w hw
    rw [hw]
    exact ⟨h₁, hm⟩
  | some m =>
    by_cases he : expiredAt m.lastUsedAt now pool.options.ttlSeconds = false
    · simp only [he]
      exact refresh_triple h₁ hm
    simp only [he]
    apply Triple.bind (forgetDomains_triple h₁ [d])
    intro _
    apply (allocateFresh_triple ord d now).conseq _ (fun _ _ h => h) (fun _ h => h)
    intro w hw
    refine ⟨hw.1, ?_⟩
    rw [hw.2, forward_forgetAll, if_pos (mem_singleton_self d)]

theorem release_triple (d : DomainName) :
    Triple (Reaches pool w₀) (pool.release d) (fun _ w => Reaches pool w₀ w) (Reaches pool w₀) := by
  apply Triple.get_bind
  intro w₁ h₁
  cases hm : w₁.memory.forward.get? d with
  | none =>
    apply Triple.pure
    intro w hw
    rwa [hw]
  | some =>
    apply Triple.bind (forgetDomains_triple h₁ [d])
    intro _
    exact Triple.pure fun w hw => hw.1

theorem flushTouches_triple (ord : IterOrder) :
    Triple (Reaches pool w₀) (pool.flushTouches ord) (fun _ w => Reaches pool w₀ w)
      (Reaches pool w₀) := by
  apply Triple.get_bind
  intro _ h₁
  apply h₁.commit (touchFakeipEntries_triple pool.scope _)
  intro _ w hm ht
  rw [hm]
  exact .flush ord ht

theorem of_triple {x : PoolM f α} {Q : World f → Prop}
    (h : Triple P x (fun _ => Q) Q) (hw : P w) : Q (x w).2 := by
  have hx := h w hw
  rcases hr : x w with ⟨r, w'⟩
  rw [hr] at hx
  cases r with
  | ok | error => exact hx

variable (pool)

theorem reaches_allocateAt (ord : IterOrder) (d : DomainName) (now : Int64) (w : World f) :
    Reaches pool w (pool.allocateAt ord d now w).2 :=
  of_triple (allocateAt_triple ord d now) ReflTransGen.refl

theorem reaches_release (d : DomainName) (w : World f) : Reaches pool w (pool.release d w).2 :=
  of_triple (release_triple d) ReflTransGen.refl

theorem reaches_flushTouches (ord : IterOrder) (w : World f) :
    Reaches pool w (pool.flushTouches ord w).2 :=
  of_triple (flushTouches_triple ord) ReflTransGen.refl

theorem Reaches.invariant {pool : FakeIpPool f}
    (hs : ∀ w w', Effect pool w w' → P w → P w') {w' : World f} (h : Reaches pool w w')
    (hw : P w) : P w' := by
  induction h with
  | refl => exact hw
  | tail _ he ih => exact hs _ _ he ih

end Doradus
