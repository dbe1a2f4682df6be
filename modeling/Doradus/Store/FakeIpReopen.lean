import Doradus.Store.FakeIpRestore

/-!
# Reopening a pool

Without store faults `open_with_prefix` succeeds on the table that a pool
leaves behind, and it restores exactly the mappings that have not expired by
their written timestamps, as long as these fit, no other prefix holds one of
their addresses and no legacy keys stand in for an empty table.
-/

namespace Doradus

open Option AssocMap FakeIpOpen ConfigStore
open Fallible (Triple)

variable {f : Family} {s : PoolState f} {m : Mapping f} {pool : FakeIpPool f} {now : UnixTime}
  {t : Tables}

theorem FakeIpPool.validateScope (pool : FakeIpPool f) :
    validateFakeipScope pool.scope = .ok () := by
  have hf : ¬(f.number ≠ 4 ∧ f.number ≠ 6) := by cases f <;> decide
  exact (if_neg hf).trans pool.prefix_ok

theorem FakeIpPool.octets_le (pool : FakeIpPool f) :
    ¬ pool.config.stop.octets < pool.config.start.octets := by
  rw [Bytes.lt_iff_toNat_lt (by simp), Address.toNat_octets, Address.toNat_octets, not_lt]
  exact pool.start_le

theorem validateKey_mapPath (f : Family) :
    (if f.mapPath = [] then .ok () else validateKey f.mapPath) = .ok () := by
  cases f <;> decide

theorem listInRange_healthy (pool : FakeIpPool f) :
    Triple (Healthy t) (listFakeipEntriesInRange pool.scope pool.config.start.octets
        pool.config.stop.octets)
      (fun rows s => Healthy t s ∧ rows = t.entries.listInRange pool.scope
        (if pool.scope.family = 4 then 4 else 16) pool.config.start.octets
          pool.config.stop.octets) (fun _ => False) := by
  have hr : ¬(pool.config.start.octets.length ≠ (if pool.scope.family = 4 then 4 else 16) ∨
      pool.config.stop.octets.length ≠ (if pool.scope.family = 4 then 4 else 16) ∨
      pool.config.stop.octets < pool.config.start.octets) := by
    rw [show (if pool.scope.family = 4 then 4 else 16) = f.octetCount by cases f <;> rfl]
    simpa using pool.octets_le
  unfold listFakeipEntriesInRange
  simp only [if_neg hr]
  exact read_healthy pool.validateScope _

theorem load_healthy (pool : FakeIpPool f) (now : UnixTime) :
    Triple (Healthy t) (load pool.config pool.scope pool.options now)
      (fun l s => Healthy t s ∧ l = loaded pool.config pool.scope pool.options now t)
      (fun _ => False) := by
  apply Triple.bind_fact (read_healthy pool.validateScope fun t => t.entries.list pool.scope)
  intro _ ht
  apply Triple.bind_fact (listInRange_healthy _)
  intro o ho
  apply Triple.bind_fact (read_healthy pool.validateScope fun t => t.cursors.get? pool.scope)
  intro c hc
  subst ht ho hc
  unfold loaded
  by_cases ha : t.entries.list pool.scope = []
  · simp only [if_pos ha]
    have hl : Triple (Healthy t) (loadLegacy pool.config pool.scope now)
        (fun l s => Healthy t s ∧
          l = legacyRecords pool.config pool.scope now (t.listKeys f.mapPath))
        (fun _ => False) := by
      apply Triple.bind_fact (read_healthy (validateKey_mapPath f) fun t => t.listKeys f.mapPath)
      intro p hp
      exact Triple.pure fun s hs => ⟨hs, by rw [hp]⟩
    apply Triple.bind_fact hl
    intro _ hl
    apply Triple.bind_fact (read_healthy (by cases f <;> decide) fun t => t.config.get? f.nextKey)
    intro v hv
    exact Triple.pure fun s hs => ⟨hs, by rw [hl, hv]⟩
  · simp only [if_neg ha]
    exact Triple.pure fun s hs => ⟨hs, rfl⟩

theorem FakeIpPool.validateOpen_ok (pool : FakeIpPool f) :
    validateOpen pool.config pool.poolPrefix pool.options = .ok pool.size :=
  validateOpen_eq_ok.mpr ⟨pool.size_eq, pool.max_pos, pool.max_le, pool.ttl_pos, pool.touch_pos,
    pool.prefix_ok⟩

theorem restored_of_nothing (hr : t.entries.list pool.scope = []) (hk : t.listKeys f.mapPath = []) :
    restored pool.config pool.scope pool.options now t =
      (⟨(loaded pool.config pool.scope pool.options now t).next, ∅, ∅,
        (loaded pool.config pool.scope pool.options now t).reserved⟩, []) := by
  rw [restored, restore, (loaded_of_noRows hr).1, hk]
  rfl

theorem deleteExpired_healthy (hc : CanonicalRows pool.scope t) : Triple (Healthy t)
      (deleteExpired pool.scope (restored pool.config pool.scope pool.options now t).2)
      (fun _ s => Healthy (t.deleteDomains pool.scope
        (restored pool.config pool.scope pool.options now t).2).2 s) (fun _ => False) := by
  have hv : ∀ x ∈ (restored pool.config pool.scope pool.options now t).2,
      validateId x = .ok () := by
    intro x hx
    obtain ⟨e, he, rfl, _, hsc, d, hd⟩ := expired_sound hx
    rw [text_of_mem_source hc he hsc hd]
    exact validateId_text d
  unfold deleteExpired
  by_cases hnil : (restored pool.config pool.scope pool.options now t).2 = []
  · rw [if_pos hnil]
    apply Triple.pure
    intro s hs
    rw [hnil]
    exact hs
  · rw [if_neg hnil]
    apply Triple.bind (deleteFakeipEntries_healthy pool.validateScope hv)
    intro _
    exact Triple.pure fun _ hs => hs

theorem trim_healthy (ord : IterOrder) (sc : FakeIpScope)
    {o : FakeIpPoolOptions} (hf : s.forward.size ≤ o.maxEntries) :
    Triple (Healthy t) (trim ord sc o s) (fun s' store => Healthy t store ∧ s' = s)
      (fun _ => False) := by
  rw [trim, if_pos (by omega)]
  exact Triple.pure fun _ hs => ⟨hs, rfl⟩

theorem writeBackIf_healthy (ord : IterOrder) {ty : Bool}
    (hn : ty = true → s.forward = ∅ ∧ t.listKeys f.mapPath = []) :
    Triple (Healthy t) (writeBackIf ty ord pool s now) (fun _ _ => True) (fun _ => False) := by
  cases ty with
  | false => exact Triple.pure fun _ _ => trivial
  | true =>
    obtain ⟨hf, hk⟩ := hn rfl
    have hr : Triple (Healthy t) (loadLegacyKeys f.mapPath)
        (fun keys s => Healthy t s ∧ keys = []) (fun _ => False) := by
      apply Triple.bind_fact (read_healthy (validateKey_mapPath f) fun t => t.listKeys f.mapPath)
      intro p hp
      apply Triple.pure
      intro s hs
      rw [hp, hk]
      exact ⟨hs, rfl⟩
    apply Triple.bind_fact hr
    intro keys hnil
    have hw : writtenEntries ord pool s = [] := by
      rw [writtenEntries, hf]
      exact List.map_eq_nil_iff.mpr (List.eq_nil_of_length_eq_zero (ord.length _))
    rw [hnil, if_neg (by simp [hw])]
    exact Triple.pure fun _ _ => trivial

/-- Without faults a pool can be opened again on canonical rows, if what it
restores fits and there are no legacy keys in the place of missing rows. -/
theorem openWithPrefix_healthy (ord : IterOrder) (hc : CanonicalRows pool.scope t)
    (hf : (restored pool.config pool.scope pool.options now t).1.forward.size ≤
      pool.options.maxEntries) (hlg : t.entries.list pool.scope = [] → t.listKeys f.mapPath = []) :
    Triple (Healthy t) (openWithPrefix ord pool.config pool.poolPrefix pool.options now)
      (fun _ _ => True) (fun _ => False) := by
  apply Triple.ok_bind (Result.attach_eq_ok pool.validateOpen_ok)
  apply Triple.bind_fact (load_healthy _ now)
  intro l hl
  subst hl
  simp only [dif_pos pool.start_le]
  apply Triple.bind (deleteExpired_healthy hc)
  intro _
  apply Triple.bind_fact (trim_healthy ord _ hf)
  intro s hs
  subst hs
  apply Triple.bind (writeBackIf_healthy ord _)
  · intro _
    exact Triple.pure fun _ _ => trivial
  intro ha
  have hr : t.entries.list pool.scope = [] := by
    by_contra hr
    rw [(loaded_of_rows hr).2] at ha
    cases ha
  rw [restored_of_nothing hr (hlg hr)]
  exact ⟨rfl, hlg hr⟩

section

variable {w : World f} {d : DomainName}

/-- The mappings that are alive by their written timestamps. -/
def liveMappings (pool : FakeIpPool f) (now : UnixTime) (s : PoolState f) :
    AssocMap DomainName (Mapping f) :=
  s.forward.retain fun _ m => !expiredAt m.persistedLastUsedAt now.1 pool.options.ttlSeconds

/-- A mapping without the uses that have not been written. -/
def Mapping.written (m : Mapping f) : Address f × Int64 × Int64 :=
  (m.address, m.persistedLastUsedAt, m.persistedLastUsedAt)

/-- What a mapping is used for: its address and both timestamps. -/
def Mapping.current (m : Mapping f) : Address f × Int64 × Int64 :=
  (m.address, m.lastUsedAt, m.persistedLastUsedAt)

/-- The live mappings fit, no live row of another prefix holds one of their
addresses, and there are no legacy keys that could stand in for missing rows. -/
def Reopenable (pool : FakeIpPool f) (w : World f) (now : UnixTime) : Prop :=
  (liveMappings pool now w.memory).size ≤ pool.options.maxEntries ∧
    (∀ e ∈ (liveMappings pool now w.memory).entries,
      ∀ y ∈ foreignRows pool now w.store.tables, y.ip ≠ e.2.address.octets) ∧
    (w.store.tables.entries.list pool.scope = [] → w.store.tables.listKeys f.mapPath = [])

instance (pool : FakeIpPool f) (w : World f) (now : UnixTime) : Decidable (Reopenable pool w now) :=
  inferInstanceAs (Decidable (_ ∧ _ ∧ _))

theorem get?_liveMappings : (liveMappings pool now s).get? d = some m ↔ s.forward.get? d = some m ∧
      expiredAt m.persistedLastUsedAt now.1 pool.options.ttlSeconds = false := by
  rw [liveMappings, get?_retain, filter_eq_some_iff, Bool.not_eq_true']

variable (hf : Faithful pool w)
include hf

variable (hc : Complete pool w)
include hc

theorem live_of_restored
    (hl : w.store.tables.entries.list pool.scope = [] → w.store.tables.listKeys f.mapPath = [])
    {m' : Mapping f}
    (hm' : (restored pool.config pool.scope pool.options now w.store.tables).1.forward.get? d = some
      m') :
    ∃ m, (liveMappings pool now w.memory).get? d = some m ∧ m'.current = m.written := by
  by_cases hrw : w.store.tables.entries.list pool.scope = []
  · rw [restored_of_nothing hrw (hl hrw)] at hm'
    cases hm'
  rcases (foldl_restoreEntry_sound pool.config pool.scope now.1 pool.options.ttlSeconds _ _
    rfl).1 d m' hm' with hn | ⟨e, he, a, hel, hlv, rfl⟩
  · cases hn
  have ht := text_of_mem_source hc.canonical he hel.scope_eq hel.domain
  rw [(loaded_of_rows hrw).1, FakeIpEntries.mem_list] at he
  have hk : e.toFakeIpKey = rowKey pool d := by
    rw [key_of_scope_eq hel.scope_eq, ht]
    rfl
  obtain ⟨m, hm⟩ := hc.backed d e.toFakeIpRow a (hk ▸ he.1) hel.address hel.range
  obtain ⟨⟨r, hr, hip, hls⟩, _⟩ := hf.cached d m hm
  rw [← hk, he.1] at hr
  cases hr
  refine ⟨m, get?_liveMappings.mpr ⟨hm, hls ▸ hlv⟩, ?_⟩
  have ha : a = m.address := by
    rw [← Address.octets_inj, Address.octets_of_ofOctets? hel.address, hip]
  rw [Mapping.written, ← hls, ← ha]
  rfl

theorem restored_eq_live (hr : Reopenable pool w now) (d : DomainName) :
    ((restored pool.config pool.scope pool.options now w.store.tables).1.forward.get? d).map
      Mapping.current = ((liveMappings pool now w.memory).get? d).map Mapping.written := by
  cases hrs : (restored pool.config pool.scope pool.options now
      w.store.tables).1.forward.get? d with
  | some m' =>
    obtain ⟨m, hm, heq⟩ := live_of_restored hf hc hr.2.2 hrs
    rw [hm, map_some, map_some, heq]
  | none =>
    cases hl : (liveMappings pool now w.memory).get? d with
    | none => rfl
    | some m =>
      obtain ⟨hm, hlv⟩ := get?_liveMappings.mp hl
      obtain ⟨⟨row, hrow, hip, hlast⟩, _⟩ := hf.cached d m hm
      have hcm := restored_complete hc.canonical hrow (hip ▸ Address.ofOctets?_octets m.address)
        (hf.coherent.range d m hm) (hr.2.1 (d, m) ((get?_eq_some_iff _ _ _).mp hl))
      rw [hcm.1 (hlast ▸ hlv)] at hrs
      cases hrs

theorem size_restored_le (hr : Reopenable pool w now) :
    (restored pool.config pool.scope pool.options now w.store.tables).1.forward.size ≤
      pool.options.maxEntries := by
  apply le_trans _ hr.1
  apply size_le_of_keys
  intro d hd
  rw [mem_keys_iff] at hd ⊢
  obtain ⟨m', hm'⟩ := hd
  obtain ⟨m, hm, _⟩ := live_of_restored hf hc hr.2.2 hm'
  exact ⟨m, hm⟩

theorem reopened_eq_live (hr : Reopenable pool w now) (ord : IterOrder) :
    ∃ pool' s' store', openWithPrefix ord pool.config pool.poolPrefix pool.options now
        ⟨w.store.tables, []⟩ = (.ok (pool', s'), store') ∧
      ∀ d, (s'.forward.get? d).map Mapping.current =
        ((liveMappings pool now w.memory).get? d).map Mapping.written := by
  have hfit := size_restored_le hf hc hr
  obtain ⟨⟨pool', s'⟩, store', hopen, _⟩ :=
    (openWithPrefix_healthy ord hc.canonical hfit hr.2.2).exists_ok (s := ⟨w.store.tables, []⟩)
      ⟨rfl, rfl⟩
  refine ⟨pool', s', store', hopen, ?_⟩
  have ho := opened_of_eq_ok hopen
  have hs : pool'.scope = pool.scope := congrArg (FakeIpScope.mk f.number) ho.poolPrefix_eq
  have ht : trimmed ord pool.config pool.scope pool.options now w.store.tables = [] := by
    rw [trimmed, trimDomains, Nat.sub_eq_zero_of_le hfit]
    rfl
  intro d
  rw [ho.state, hs, openedState, ht]
  exact restored_eq_live hf hc hr d

end

variable {ord : AssocMap.IterOrder} {config : FakeIpConfig f} {poolPrefix : Text}
  {options : FakeIpPoolOptions} {now : UnixTime} {store store' : ConfigStore} {pool : FakeIpPool f}

/-- After every run of calls, failing transactions included, the memory of the
pool is a faithful cache of its rows, as long as the readings of the clock
during an import agree. If no row was withheld when the pool was opened, then
opening it again at any moment restores exactly the live mappings. -/
theorem fakeipPool_faithful_of_steadyClock
    (hopen : openWithPrefix ord config poolPrefix options now store = (.ok (pool, s), store'))
    (hcanonical : CanonicalRows pool.scope store.tables) (calls : List (PoolCall f))
    (hrun : Run.Meets (PoolCall.run pool) SteadyClock ⟨s, store'⟩ calls) :
    Cached pool (Run.run (PoolCall.run pool) ⟨s, store'⟩ calls) ∧
    ((∀ x ∈ store.tables.entries.list pool.scope, ∀ y ∈ foreignRows pool now store.tables,
        y.ip ≠ x.ip) →
      ∀ ord' now', Reopenable pool (Run.run (PoolCall.run pool) ⟨s, store'⟩ calls) now' →
        ∃ pool' s' store'', openWithPrefix ord' config poolPrefix options now'
            ⟨(Run.run (PoolCall.run pool) ⟨s, store'⟩ calls).store.tables, []⟩ =
              (.ok (pool', s'), store'') ∧
          ∀ d, (s'.forward.get? d).map Mapping.current =
            ((liveMappings pool now' (Run.run (PoolCall.run pool) ⟨s, store'⟩ calls).memory).get?
              d).map Mapping.written) := by
  have ho := opened_of_eq_ok hopen
  have hf : Faithful pool (Run.run (PoolCall.run pool) ⟨s, store'⟩ calls) :=
    Run.invariant (PoolCall.run pool) (fun _ call h hc => h.call call hc) calls _
      (Faithful.opened ho hcanonical) hrun
  refine ⟨hf.cached, ?_⟩
  intro hfr ord' now' hr
  have hc : Complete pool (Run.run (PoolCall.run pool) ⟨s, store'⟩ calls) :=
    Run.invariant_of_forall (PoolCall.run pool) (fun _ call h => h.call call) calls _
      (Complete.opened ho hcanonical hfr)
  rw [← ho.config_eq, ← ho.poolPrefix_eq, ← ho.options_eq]
  exact reopened_eq_live hf hc hr ord'

/-- The clock reads 0 while the entries are drafted and 1 afterwards. -/
def driftingClock (n : ℕ) : UnixTime := if n < 2 then epoch else ⟨1, by decide⟩

def importSnapshot (clock : ℕ → UnixTime) : PoolCall .v4 :=
  .importLegacy .stored "go".toList smallSnapshot clock

/-- When the second changes during an import, the row keeps the earlier reading
and the mapping remembers the later one as written. -/
theorem fakeipPool_unfaithful_after_drift : ∃ pool s store', openSmall = (.ok (pool, s), store') ∧
    ¬ Cached pool (Run.run (PoolCall.run pool) ⟨s, store'⟩ [importSnapshot driftingClock]) := by
  have he : openedSmall (fun pool s store' =>
      let final := Run.run (PoolCall.run pool) ⟨s, store'⟩ [importSnapshot driftingClock]
      decide ((final.memory.forward.get? secondDomain).map Mapping.persistedLastUsedAt = some 1 ∧
        (final.store.tables.entries.rows.get? (rowKey pool secondDomain)).map
          FakeIpRow.lastUsedAt = some 0)) = true := by decide +kernel
  obtain ⟨pool, s, store', ho, he⟩ := exists_openSmall he
  refine ⟨pool, s, store', ho, ?_⟩
  intro hc
  obtain ⟨hf, hrow⟩ := of_decide_eq_true he
  obtain ⟨m, hm, hp⟩ := map_eq_some_iff.mp hf
  obtain ⟨⟨r, hr, _, hl⟩, _⟩ := hc secondDomain m hm
  rw [hr, map_some, hl, hp] at hrow
  exact absurd hrow (by decide)

/-- With a clock that stands still the imported mapping survives a restart. -/
theorem fakeipPool_faithful_standing : ∃ pool s store', openSmall = (.ok (pool, s), store') ∧
    Cached pool (Run.run (PoolCall.run pool) ⟨s, store'⟩ [importSnapshot fun _ => epoch]) ∧
    ∃ pool' s' store'', openWithPrefix .stored smallRange "198.18.0.0/31".toList smallOptions epoch
        ⟨(Run.run (PoolCall.run pool) ⟨s, store'⟩ [importSnapshot fun _ => epoch]).store.tables,
          []⟩ = (.ok (pool', s'), store'') ∧
      (s'.forward.get? secondDomain).map Mapping.current = some (smallRange.start, 0, 0) := by
  have he : openedSmall (fun pool s store' =>
      let final := Run.run (PoolCall.run pool) ⟨s, store'⟩ [importSnapshot fun _ => epoch]
      decide (Run.Meets (PoolCall.run pool) SteadyClock ⟨s, store'⟩
          [importSnapshot fun _ => epoch] ∧ Reopenable pool final epoch ∧
        ((liveMappings pool epoch final.memory).get? secondDomain).map Mapping.written =
          some (smallRange.start, 0, 0))) = true := by decide +kernel
  obtain ⟨pool, s, store', ho, he⟩ := exists_openSmall he
  obtain ⟨hrun, hrp, hl⟩ := of_decide_eq_true he
  have hall := fakeipPool_faithful_of_steadyClock ho (fun _ _ hr => by cases hr) _ hrun
  obtain ⟨pool', s', store'', ha, hm⟩ := hall.2 (fun _ hx => by cases hx) .stored epoch hrp
  exact ⟨pool, s, store', ho, hall.1, pool', s', store'', ha, (hm secondDomain).trans hl⟩

end Doradus
