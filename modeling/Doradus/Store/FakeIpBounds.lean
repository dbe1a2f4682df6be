import Mathlib.Data.List.Dedup
import Doradus.Store.FakeIpSession

/-!
# Capacity and reservations of a pool

`open_with_prefix` and `allocate_at` keep the number of mappings within the
capacity and stay away from reserved addresses. `import_legacy` looks at
neither; the bounds survive an import exactly when its snapshot respects them.
-/

namespace Doradus

open FakeIpPool Session PoolState FakeIpOpen List AssocMap

variable {f : Family}

structure Bounded (options : FakeIpPoolOptions) (s : PoolState f) : Prop where
  capacity : s.forward.size ≤ options.maxEntries
  unreserved : ∀ d m, s.forward.get? d = some m → s.reserved.get? m.address = none

variable {d : DomainName} {m : Mapping f} {pool : FakeIpPool f} {w : World f} (s : PoolState f)

theorem reserved_forget (d : DomainName) : (s.forget d).reserved = s.reserved := by
  unfold forget
  split <;> rfl

theorem size_forget_le (d : DomainName) : (s.forget d).forward.size ≤ s.forward.size := by
  unfold forget
  split
  · exact size_retain_le _ _
  · exact le_refl _

theorem size_forget (h : s.forward.get? d = some m) :
    (s.forget d).forward.size + 1 = s.forward.size := by
  unfold forget
  rw [h]
  exact size_erase _ h

theorem reserved_forgetAll (dm : List DomainName) : (s.forgetAll dm).reserved = s.reserved := by
  induction dm generalizing s with
  | nil => rfl
  | cons d _ ih => exact (ih (s.forget d)).trans (reserved_forget s d)

theorem size_forgetAll_le (dm : List DomainName) :
    (s.forgetAll dm).forward.size ≤ s.forward.size := by
  induction dm generalizing s with
  | nil => exact le_refl _
  | cons d _ ih => exact (ih (s.forget d)).trans (size_forget_le s d)

theorem size_forgetAll {dm : List DomainName} (hn : dm.Nodup)
    (hmp : ∀ d ∈ dm, ∃ m, s.forward.get? d = some m) :
    (s.forgetAll dm).forward.size + dm.length = s.forward.size := by
  induction dm generalizing s with
  | nil => rfl
  | cons d dm ih =>
    rw [nodup_cons] at hn
    obtain ⟨m, hm⟩ := hmp d (mem_cons_self ..)
    have hr : ∀ d' ∈ dm, ∃ m, (s.forget d).forward.get? d' = some m := by
      intro d' hd'
      rw [forward_forget, if_neg (ne_of_mem_of_not_mem hd' hn.1)]
      exact hmp d' (mem_cons_of_mem d hd')
    have hs := size_forget s hm
    have ht := ih (s.forget d) hn.2 hr
    change ((s.forget d).forgetAll dm).forward.size + (dm.length + 1) = _
    omega

namespace Bounded

variable {options : FakeIpPoolOptions} {s : PoolState f}

section

variable (h : Bounded options s)
include h

theorem forgetAll (dm : List DomainName) : Bounded options (s.forgetAll dm) := by
  refine ⟨(size_forgetAll_le s dm).trans h.capacity, ?_⟩
  intro d m hm
  rw [forward_forgetAll] at hm
  split_ifs at hm
  rw [reserved_forgetAll]
  exact h.unreserved d m hm

theorem modifyMapping (d : DomainName) {g : Mapping f → Mapping f}
    (hg : ∀ m, (g m).address = m.address) : Bounded options (s.modifyMapping d g) := by
  refine ⟨?_, ?_⟩
  · rw [PoolState.modifyMapping, size_modify]
    exact h.capacity
  intro d' m hm
  rw [PoolState.modifyMapping, get?_modify] at hm
  split_ifs at hm
  · obtain ⟨m', hm', rfl⟩ := Option.map_eq_some_iff.mp hm
    rw [hg]
    exact h.unreserved d' m' hm'
  · exact h.unreserved d' m hm

theorem retainReserved (now ttl : Int64) : Bounded options (s.retainReserved now ttl) := by
  refine ⟨h.capacity, ?_⟩
  intro d m hm
  rw [PoolState.retainReserved, get?_retain, h.unreserved d m hm]
  rfl

theorem foldl_settle (t : List (Text × Int64)) : Bounded options (t.foldl settle s) := by
  induction t generalizing s with
  | nil => exact h
  | cons tc _ ih =>
    apply ih
    unfold settle
    cases DomainName.new tc.1 with
    | ok d => exact h.modifyMapping d fun _ => rfl
    | error => exact h

theorem record {m : Mapping f} (hr : s.reserved.get? m.address = none)
    (hs : (s.forward.insert d m).size ≤ options.maxEntries) : Bounded options (s.record d m) := by
  refine ⟨hs, ?_⟩
  intro d' m' hm'
  rcases of_get?_insert hm' with ⟨-, rfl⟩ | hm'
  · exact hr
  · exact h.unreserved d' m' hm'

end

theorem assign (pool : FakeIpPool f) (h : Bounded pool.options s) {a : Address f}
    {ev : Option DomainName} (now : Int64) (hs : Selected pool s a ev) :
    Bounded pool.options { (s.forgetAll ev.toList).record d ⟨a, now, now, now⟩
      with next := pool.candidate a 1 } := by
  have hr : Bounded pool.options ((s.forgetAll ev.toList).record d ⟨a, now, now, now⟩) := by
    apply (h.forgetAll _).record
    · rw [reserved_forgetAll]
      cases hs with
      | free _ _ hrs => exact hrs
      | evict _ hf =>
        have hr := h.unreserved _ _ hf
        exact hr
    apply (size_insert_le _ _ _).trans
    cases hs with
    | free hsz => exact hsz
    | evict _ hf =>
      have ho := size_forget s hf
      have hc := h.capacity
      change (s.forget _).forward.size + 1 ≤ _
      omega
  exact ⟨hr.capacity, hr.unreserved⟩

theorem effect {pool : FakeIpPool f} {w w' : World f} (he : Effect pool w w')
    (h : Bounded pool.options w.memory) : Bounded pool.options w'.memory := by
  cases he with
  | fault => exact h
  | retain => exact h.retainReserved _ _
  | forget d => exact h.forgetAll d
  | use | touch => exact h.modifyMapping _ fun _ => rfl
  | flush => exact h.foldl_settle _
  | assign _ hs => exact h.assign _ _ hs

end Bounded

variable {config : FakeIpConfig f} {scope : FakeIpScope}

theorem unreserved_restore (o : FakeIpPoolOptions) (now : UnixTime)
    (ld : Loaded f) (d : DomainName) (m : Mapping f)
    (hm : (restore config scope o now ld).1.forward.get? d = some m) :
    (restore config scope o now ld).1.reserved.get? m.address = none := by
  have hf : ∀ (l : List _) (acc : PoolState f × List _),
      (∀ d m, acc.1.forward.get? d = some m → acc.1.reserved.get? m.address = none) →
      ∀ d m, (l.foldl (restoreEntry config scope now.1 o.ttlSeconds) acc).1.forward.get? d
          = some m →
        (l.foldl (restoreEntry config scope now.1
          o.ttlSeconds) acc).1.reserved.get? m.address = none := by
    intro l
    induction l with
    | nil => exact fun _ h => h
    | cons x _ ih =>
      intro acc h
      apply ih
      unfold restoreEntry
      split
      · split_ifs with hs he
        · exact h
        · exact h
        push Not at hs
        have hr := hs.2.2.1
        rw [ne_eq, Bool.not_eq_true, contains_eq_false_iff] at hr
        intro d m hm
        simp only [record, get?_insert] at hm
        split_ifs at hm
        · cases hm
          exact hr
        · exact h d m hm
      · exact h
  exact hf ld.source _ (fun d m h => by cases h) d m hm

theorem length_trimDomains (ord : IterOrder) (s : PoolState f) (maxEntries : ℕ) :
    (trimDomains ord s maxEntries).length = s.forward.size - maxEntries := by
  rw [trimDomains, length_map, length_take, length_insertionSort, IterOrder.length]
  exact min_eq_left (Nat.sub_le _ _)

theorem nodup_trimDomains (ord : IterOrder) (s : PoolState f) (m : ℕ) :
    (trimDomains ord s m).Nodup := by
  have hp := (perm_insertionSort
    (fun a b : DomainName × Mapping f => ¬ b.2.lastUsedAt < a.2.lastUsedAt)
    (ord s.forward.entries)).trans (ord.perm _)
  have hn := ((hp.map Prod.fst).nodup_iff).mpr s.forward.nodup
  exact hn.sublist ((take_sublist _ _).map Prod.fst)

variable {ord : IterOrder} {s : PoolState f}

theorem mapped_of_mem_trimDomains {mx : ℕ} (h : d ∈ trimDomains ord s mx) :
    ∃ m, s.forward.get? d = some m := by
  rw [trimDomains, mem_map] at h
  obtain ⟨e, he, rfl⟩ := h
  have hmem := mem_of_mem_take he
  rw [mem_insertionSort, IterOrder.mem] at hmem
  exact ⟨e.2, (s.forward.get?_eq_some_iff _ _).mpr hmem⟩

theorem Bounded.opened {p : Text} {o : FakeIpPoolOptions} {now : UnixTime} {t t' : Tables}
    (h : Opened ord config p o now t pool s t') : Bounded pool.options s := by
  rw [h.options_eq, h.state]
  constructor
  · have hlen := length_trimDomains ord (restored config pool.scope o now t).1 o.maxEntries
    have hs := size_forgetAll (restored config pool.scope o now t).1
      (nodup_trimDomains ord _ o.maxEntries) fun d hd => mapped_of_mem_trimDomains hd
    unfold openedState trimmed
    omega
  intro d m hm
  unfold openedState at hm ⊢
  rw [forward_forgetAll] at hm
  split_ifs at hm
  rw [reserved_forgetAll]
  exact unreserved_restore o now _ d m hm

def newDomains (s : PoolState f) (snapshot : LegacyFakeIpSnapshot f) : List DomainName :=
  (snapshot.entries.map LegacyFakeIpEntry.domain).dedup.filter fun d => (s.forward.get? d).isNone

/-- There is room for the new domains, and no address of the snapshot is
reserved. -/
def ImportRespects (options : FakeIpPoolOptions) (s : PoolState f)
    (snapshot : LegacyFakeIpSnapshot f) : Prop :=
  s.forward.size + (newDomains s snapshot).length ≤ options.maxEntries ∧
    ∀ e ∈ snapshot.entries, s.reserved.get? e.address = none

instance (options : FakeIpPoolOptions) (s : PoolState f) (snapshot : LegacyFakeIpSnapshot f) :
    Decidable (ImportRespects options s snapshot) :=
  inferInstanceAs (Decidable (_ ∧ _))

theorem size_foldl_record_le (s : PoolState f) (now : Int64) (l : List (Address f × DomainName)) :
    (l.foldl (fun s e => s.record e.2 ⟨e.1, now, now, now⟩) s).forward.size ≤
      s.forward.size + (l.filter fun e => (s.forward.get? e.2).isNone).length := by
  induction l generalizing s with
  | nil => exact le_refl _
  | cons e l ih =>
    rw [foldl_cons]
    have hsub :
        (l.filter fun x => ((s.record e.2 ⟨e.1, now, now, now⟩).forward.get? x.2).isNone).length ≤
          (l.filter fun x => (s.forward.get? x.2).isNone).length := by
      apply Sublist.length_le
      apply monotone_filter_right
      intro x hx
      simp only [record, get?_insert] at hx
      split_ifs at hx
      · cases hx
      · exact hx
    have ht := ih (s.record e.2 ⟨e.1, now, now, now⟩)
    cases he : s.forward.get? e.2 with
    | none =>
      have ho : (s.record e.2 ⟨e.1, now, now, now⟩).forward.size = s.forward.size + 1 :=
        size_insert_of_none _ _ he
      rw [filter_cons_of_pos (by simp [he]), length_cons]
      omega
    | some =>
      have hs : (s.record e.2 ⟨e.1, now, now, now⟩).forward.size = s.forward.size := by
        have h₁ := size_erase _ he
        have h₂ := size_insert_eq s.forward e.2 ⟨e.1, now, now, now⟩
        simp only [record]
        omega
      rw [filter_cons_of_neg (by simp [he])]
      omega

theorem foldl_record_cases (now : Int64) (l : List (Address f × DomainName)) (s : PoolState f)
    (hm : (l.foldl (fun s e => s.record e.2 ⟨e.1, now, now, now⟩) s).forward.get? d = some m) :
    s.forward.get? d = some m ∨ ∃ e ∈ l, e.2 = d ∧ m = ⟨e.1, now, now, now⟩ := by
  induction l generalizing s with
  | nil => exact .inl hm
  | cons e _ ih =>
    rcases ih _ hm with h | ⟨x, hx, h⟩
    · simp only [record, get?_insert] at h
      split_ifs at h with hd
      · cases h
        exact .inr ⟨e, mem_cons_self .., hd.symm, rfl⟩
      · exact .inl h
    · exact .inr ⟨x, mem_cons_of_mem e hx, h⟩

theorem reserved_foldl_record (now : Int64) (l : List (Address f × DomainName)) (s : PoolState f) :
    (l.foldl (fun s e => s.record e.2 ⟨e.1, now, now, now⟩) s).reserved = s.reserved := by
  induction l generalizing s with
  | nil => rfl
  | cons _ _ ih => exact ih _

variable {c : ℕ → UnixTime} {dr : ImportDraft f}

theorem length_imported_le {snapshot : LegacyFakeIpSnapshot f}
    (h : Drafted pool s c 0 snapshot.entries .empty dr) (ord : IterOrder) :
    ((ord dr.importedIps.entries).filter fun e => (s.forward.get? e.2).isNone).length ≤
      (newDomains s snapshot).length := by
  have hp := h.draftOk.pairwise (ord.perm _)
  have hn : (((ord dr.importedIps.entries).filter
      fun e => (s.forward.get? e.2).isNone).map Prod.snd).Nodup :=
    (pairwise_map.mpr (hp.imp fun h => h.2)).sublist (filter_sublist.map Prod.snd)
  have hs : ((ord dr.importedIps.entries).filter
      fun e => (s.forward.get? e.2).isNone).map Prod.snd ⊆ newDomains s snapshot := by
    intro d hd
    obtain ⟨e, he, rfl⟩ := mem_map.mp hd
    rw [mem_filter, IterOrder.mem] at he
    have hg := (dr.importedIps.get?_eq_some_iff _ _).mpr he.1
    rcases (h.imported _ _).mp hg with hnn | hmem
    · cases hnn
    · rw [newDomains, mem_filter, mem_dedup]
      exact ⟨mem_map.mpr ⟨_, hmem, rfl⟩, he.2⟩
  have hle := (hn.subperm hs).length_le
  rwa [length_map] at hle

theorem Bounded.imported {sn : LegacyFakeIpSnapshot f} {w' : World f}
    (h : Bounded pool.options w.memory) (hi : Imported pool ord sn c w w' dr)
    (hr : ImportRespects pool.options w.memory sn) : Bounded pool.options w'.memory := by
  rw [hi.memory]
  constructor
  · have hle := length_imported_le hi.drafted ord
    apply (size_foldl_record_le _ _ _).trans
    exact (Nat.add_le_add_left hle w.memory.forward.size).trans hr.1
  intro d m hm
  unfold publish at hm ⊢
  rw [reserved_foldl_record]
  rcases foldl_record_cases _ _ _ hm with hold | ⟨e, he, _, rfl⟩
  · exact h.unreserved d m hold
  rw [IterOrder.mem] at he
  have hg := (dr.importedIps.get?_eq_some_iff _ _).mpr he
  rcases (hi.drafted.imported _ _).mp hg with hn | hmem
  · cases hn
  · exact hr.2 _ hmem

def SessionRespects (s : Session f) : SessionInput f → Prop
  | .call (.importLegacy _ _ snapshot _) => ∀ p ∈ s.current, ImportRespects p.1.options p.2 snapshot
  | _ => True

instance (s : Session f) (input : SessionInput f) : Decidable (SessionRespects s input) :=
  match input with
  | .call (.importLegacy _ _ snapshot _) =>
    match h : s.current with
    | none => .isTrue (by simp [SessionRespects, h])
    | some p => decidable_of_iff (ImportRespects p.1.options p.2 snapshot)
        (by simp [SessionRespects, h])
  | .call (.allocateAt _ _ _) => .isTrue trivial
  | .call (.release _) => .isTrue trivial
  | .call (.flushTouches _) => .isTrue trivial
  | .openWithPrefix _ _ _ _ _ => .isTrue trivial

theorem Bounded.call (h : Bounded pool.options w.memory) (call : PoolCall f) (hrs : ∀ ord m sn c,
      call = .importLegacy ord m sn c → ImportRespects pool.options w.memory sn) :
    Bounded pool.options (call.run pool w).memory := by
  rcases PoolCall.run_cases pool w call with hr | ⟨ord, m, sn, c, draft, hc, hi⟩
  · exact hr.invariant (P := fun w => Bounded pool.options w.memory) (fun _ _ he h => h.effect he) h
  · exact h.imported hi (hrs ord m sn c hc)

theorem bounded_step {s : Session f} (inp : SessionInput f)
    (h : ∀ p ∈ s.current, Bounded p.1.options p.2) (hc : SessionRespects s inp) :
    ∀ p ∈ (s.step inp).current, Bounded p.1.options p.2 := by
  cases inp with
  | openWithPrefix =>
    unfold step
    dsimp only
    split
    · next opened store ho =>
      intro p hp
      cases hp
      exact Bounded.opened (opened_of_eq_ok ho)
    · exact h
  | call =>
    unfold step
    dsimp only
    split
    · next pool memory hcr =>
      intro p hp
      cases hp
      apply (h (pool, memory) hcr).call
      intro _ m _ c hcl
      subst hcl
      exact hc (pool, memory) hcr
    · exact h

/-- In every session, as long as every import respects the bounds, the pool
never exceeds its capacity and never maps a reserved address. -/
theorem fakeipSession_bounded_of_importRespects (store : ConfigStore)
    (inputs : List (SessionInput f))
    (hrun : Run.Meets Session.step SessionRespects ⟨store, none⟩ inputs) (pool : FakeIpPool f)
    (memory : PoolState f)
    (hcurrent : (Run.run Session.step ⟨store, none⟩ inputs).current = some (pool, memory)) :
    memory.forward.size ≤ pool.options.maxEntries ∧
      ∀ d m, memory.forward.get? d = some m → memory.reserved.get? m.address = none := by
  have hall := Run.invariant step (fun _ input h hc => bounded_step input h hc) inputs
    ⟨store, none⟩ (fun p hp => by cases hp) hrun
  have hb := hall (pool, memory) hcurrent
  exact ⟨hb.capacity, hb.unreserved⟩

def singleOptions : FakeIpPoolOptions := ⟨1, 86400, 300⟩

def openSingle : SessionInput .v4 :=
  .openWithPrefix .stored smallRange "198.18.0.0/31".toList singleOptions epoch

def overlappingPool : List (SessionInput .v4) :=
  [.openWithPrefix .stored smallRange "198.18.0.0/15".toList smallOptions epoch,
    .call (.allocateAt .stored firstDomain 0)]

def importSmall (entries : List (LegacyFakeIpEntry .v4)) : SessionInput .v4 :=
  .call (.importLegacy .stored "go".toList ⟨entries, none⟩ fun _ => epoch)

/-- An import of two entries into a pool for one, and an import on an address
that an overlapping pool holds. -/
theorem fakeipSession_unbounded_after_import :
    (∃ pool memory, (Run.run Session.step ⟨freshStore, none⟩
        [openSingle, importSmall [⟨firstDomain, smallRange.start⟩,
          ⟨secondDomain, smallRange.stop⟩]]).current = some (pool, memory) ∧
      pool.options.maxEntries < memory.forward.size) ∧
    ∃ pool memory, (Run.run Session.step ⟨freshStore, none⟩ (overlappingPool ++
        [openSingle, importSmall [⟨secondDomain, smallRange.start⟩]])).current =
          some (pool, memory) ∧
      ∃ d m, memory.forward.get? d = some m ∧ memory.reserved.get? m.address ≠ none := by
  constructor
  · have he : ((Run.run step ⟨freshStore, none⟩
        [openSingle, importSmall [⟨firstDomain, smallRange.start⟩,
          ⟨secondDomain, smallRange.stop⟩]]).current.any fun p =>
            p.1.options.maxEntries < p.2.forward.size) = true := by decide +kernel
    obtain ⟨p, hp, hs⟩ := (Option.any_eq_true _ _).mp he
    exact ⟨p.1, p.2, hp, of_decide_eq_true hs⟩
  have he : ((Run.run step ⟨freshStore, none⟩ (overlappingPool ++
      [openSingle, importSmall [⟨secondDomain, smallRange.start⟩]])).current.any fun p =>
        (p.2.forward.get? secondDomain).any fun m => (p.2.reserved.get? m.address).isSome) =
          true := by decide +kernel
  obtain ⟨p, hp, hany⟩ := (Option.any_eq_true _ _).mp he
  obtain ⟨m, hm, hr⟩ := (Option.any_eq_true _ _).mp hany
  exact ⟨p.1, p.2, hp, secondDomain, m, hm, by simpa using Option.ne_none_iff_isSome.mpr hr⟩

/-- An import of one entry into an empty pool for one. -/
theorem fakeipSession_bounded_single : ∃ pool memory, (Run.run Session.step ⟨freshStore, none⟩
      [openSingle, importSmall [⟨secondDomain, smallRange.start⟩]]).current = some (pool, memory) ∧
    memory.forward.size ≤ pool.options.maxEntries ∧
      ∀ d m, memory.forward.get? d = some m → memory.reserved.get? m.address = none := by
  have hs : (Run.run step ⟨freshStore, none⟩
      [openSingle, importSmall [⟨secondDomain, smallRange.start⟩]]).current.isSome = true := by
    decide +kernel
  obtain ⟨p, hp⟩ := Option.isSome_iff_exists.mp hs
  exact ⟨p.1, p.2, hp, fakeipSession_bounded_of_importRespects _ _ (by decide +kernel)
    p.1 p.2 hp⟩

end Doradus
