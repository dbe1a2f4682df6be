import Doradus.Store.FakeIpCache

/-!
# What a pool restores from its rows

The loop of `open_with_prefix` enters exactly the rows of its scope that carry a
domain, lie in the range on an address nobody reserves and have not expired. On
rows with canonical names it does so without collisions, and the memory it
builds is a faithful cache of the rows that remain.
-/

namespace Doradus

open FakeIpEntries List AssocMap DomainName FakeIpOpen

variable {f : Family} (config : FakeIpConfig f) (scope : FakeIpScope)
  (reserved : AssocMap (Address f) Int64)

/-- A row that the loop considers: it carries the domain and the address, and
the address is in the range and not reserved. -/
structure Eligible (entry : FakeIpEntryRecord) (d : DomainName) (a : Address f) : Prop where
  address : Address.ofOctets? f entry.ip = some a
  domain : DomainName.new entry.domain = .ok d
  scope_eq : entry.toFakeIpScope = scope
  range : config.Contains a
  unreserved : reserved.get? a = none

def mappingOf (entry : FakeIpEntryRecord) (a : Address f) : Mapping f :=
  ⟨a, entry.createdAt, entry.lastUsedAt, entry.lastUsedAt⟩

variable (now ttl : Int64) {reserved} {acc : PoolState f × List Text}

theorem restoreEntry_cases (hr : acc.1.reserved = reserved) (en : FakeIpEntryRecord) :
    restoreEntry config scope now ttl acc en = acc ∨
    (∃ d a, Eligible config scope reserved en d a ∧ expiredAt en.lastUsedAt now ttl = true ∧
      restoreEntry config scope now ttl acc en = (acc.1, acc.2 ++ [en.domain])) ∨
    ∃ d a, Eligible config scope reserved en d a ∧ expiredAt en.lastUsedAt now ttl = false ∧
      restoreEntry config scope now ttl acc en = (acc.1.record d (mappingOf en a), acc.2) := by
  unfold restoreEntry
  split
  · next a d ha hd =>
    by_cases hs : en.toFakeIpScope ≠ scope ∨ ¬ config.Contains a ∨
        acc.1.reserved.contains a = true ∨ acc.1.reverse.contains a = true ∨
        acc.1.forward.contains d = true
    · rw [if_pos hs]
      exact .inl rfl
    rw [if_neg hs]
    push Not at hs
    obtain ⟨hsc, hrn, hres, -, -⟩ := hs
    rw [ne_eq, Bool.not_eq_true, contains_eq_false_iff, hr] at hres
    have he : Eligible config scope reserved en d a := ⟨ha, hd, hsc, hrn, hres⟩
    cases hex : expiredAt en.lastUsedAt now ttl with
    | true => exact .inr (.inl ⟨d, a, he, rfl, rfl⟩)
    | false => exact .inr (.inr ⟨d, a, he, rfl, rfl⟩)
  · exact .inl rfl

variable {en : FakeIpEntryRecord} {d : DomainName} {a : Address f} {l : List FakeIpEntryRecord}
  {x : Text}

theorem restoreEntry_of_free (hr : acc.1.reserved = reserved)
    (h : Eligible config scope reserved en d a)
    (hf : acc.1.forward.get? d = none) (hrv : acc.1.reverse.get? a = none) :
    restoreEntry config scope now ttl acc en =
      if expiredAt en.lastUsedAt now ttl then (acc.1, acc.2 ++ [en.domain])
      else (acc.1.record d (mappingOf en a), acc.2) := by
  unfold restoreEntry
  rw [h.address, h.domain]
  dsimp only
  rw [if_neg]
  · rfl
  push Not
  refine ⟨h.scope_eq, h.range, ?_, ?_, ?_⟩
  · rw [ne_eq, Bool.not_eq_true, contains_eq_false_iff, hr]
    exact h.unreserved
  · rw [ne_eq, Bool.not_eq_true, contains_eq_false_iff]
    exact hrv
  · rw [ne_eq, Bool.not_eq_true, contains_eq_false_iff]
    exact hf

theorem reserved_restoreEntry (acc : PoolState f × List Text) (en : FakeIpEntryRecord) :
    (restoreEntry config scope now ttl acc en).1.reserved = acc.1.reserved := by
  rcases restoreEntry_cases config scope now ttl rfl en with h | ⟨_, _, _, _, h⟩ | ⟨_, _, _, _, h⟩
  · rw [h]
  · rw [h]
  · rw [h]
    rfl

theorem foldl_restoreEntry_sound (l : List FakeIpEntryRecord) (acc : PoolState f × List Text)
    (hr : acc.1.reserved = reserved) :
    (∀ d m, (l.foldl (restoreEntry config scope now ttl) acc).1.forward.get? d = some m →
      acc.1.forward.get? d = some m ∨ ∃ en ∈ l, ∃ a,
        Eligible config scope reserved en d a ∧ expiredAt en.lastUsedAt now ttl = false ∧
          m = mappingOf en a) ∧
    ∀ x ∈ (l.foldl (restoreEntry config scope now ttl) acc).2, x ∈ acc.2 ∨ ∃ en ∈ l,
      en.domain = x ∧ expiredAt en.lastUsedAt now ttl = true ∧
        en.toFakeIpScope = scope ∧ ∃ d, new x = .ok d := by
  induction l generalizing acc with
  | nil => exact ⟨fun d m h => .inl h, fun x h => .inl h⟩
  | cons en _ ih =>
    have hres : (restoreEntry config scope now ttl acc en).1.reserved = reserved := by
      rw [reserved_restoreEntry, hr]
    obtain ⟨hf, hex⟩ := ih _ hres
    constructor
    · intro d m hm
      rcases hf d m hm with h | ⟨e, he, h⟩
      · rcases restoreEntry_cases config scope now ttl hr en with
          hc | ⟨_, _, _, _, hc⟩ | ⟨d', a, hel, hl, hc⟩
        · rw [hc] at h
          exact .inl h
        · rw [hc] at h
          exact .inl h
        rw [hc] at h
        simp only [PoolState.record, get?_insert] at h
        split_ifs at h with hd
        · cases h
          subst hd
          exact .inr ⟨en, mem_cons_self .., a, hel, hl, rfl⟩
        · exact .inl h
      · exact .inr ⟨e, mem_cons_of_mem en he, h⟩
    · intro x hx
      rcases hex x hx with h | ⟨e, he, h⟩
      · rcases restoreEntry_cases config scope now ttl hr en with
          hc | ⟨d, _, hel, hdd, hc⟩ | ⟨_, _, _, _, hc⟩
        · rw [hc] at h
          exact .inl h
        · rw [hc, mem_append, mem_singleton] at h
          rcases h with h | rfl
          · exact .inl h
          · exact .inr ⟨en, mem_cons_self .., rfl, hdd, hel.scope_eq, d, hel.domain⟩
        · rw [hc] at h
          exact .inl h
      · exact .inr ⟨e, mem_cons_of_mem en he, h⟩

/-- Two rows that share neither their domain nor their address. -/
def Apart (f : Family) (x y : FakeIpEntryRecord) : Prop :=
  (∀ d, DomainName.new x.domain = .ok d → DomainName.new y.domain ≠ .ok d) ∧
    ∀ a : Address f, Address.ofOctets? f x.ip = some a → Address.ofOctets? f y.ip ≠ some a

theorem forward_foldl_restoreEntry_of_apart (hr : acc.1.reserved = reserved) {m : Mapping f}
    (hm : acc.1.forward.get? d = some m) (hl : ∀ y ∈ l, new y.domain ≠ .ok d) :
    (l.foldl (restoreEntry config scope now ttl) acc).1.forward.get? d = some m := by
  induction l generalizing acc with
  | nil => exact hm
  | cons y _ ih =>
    apply ih
    · rw [reserved_restoreEntry, hr]
    · rcases restoreEntry_cases config scope now ttl hr y with
        hc | ⟨_, _, _, _, hc⟩ | ⟨d', _, hel, _, hc⟩
      · rw [hc]
        exact hm
      · rw [hc]
        exact hm
      rw [hc]
      have hne : d ≠ d' := by
        rintro rfl
        exact hl y (mem_cons_self ..) hel.domain
      exact (get?_insert_of_ne _ _ hne).trans hm
    · intro x hx
      exact hl x (mem_cons_of_mem y hx)

theorem subset_foldl_restoreEntry (l : List FakeIpEntryRecord) (acc : PoolState f × List Text)
    (hr : acc.1.reserved = reserved) (hx : x ∈ acc.2) :
    x ∈ (l.foldl (restoreEntry config scope now ttl) acc).2 := by
  induction l generalizing acc with
  | nil => exact hx
  | cons y _ ih =>
    apply ih
    · rw [reserved_restoreEntry, hr]
    rcases restoreEntry_cases config scope now ttl hr y with
      hc | ⟨_, _, _, _, hc⟩ | ⟨_, _, _, _, hc⟩
    · rw [hc]
      exact hx
    · rw [hc]
      exact mem_append_left _ hx
    · rw [hc]
      exact hx

theorem foldl_restoreEntry_complete (hap : l.Pairwise (Apart f))
    (acc : PoolState f × List Text) (hrs : acc.1.reserved = reserved)
    (hfr : ∀ y ∈ l, ∀ d a, Eligible config scope reserved y d a →
      acc.1.forward.get? d = none ∧ acc.1.reverse.get? a = none) (hmem : en ∈ l)
    (h : Eligible config scope reserved en d a) :
    (expiredAt en.lastUsedAt now ttl = false →
      (l.foldl (restoreEntry config scope now ttl) acc).1.forward.get? d = some (mappingOf en a)) ∧
    (expiredAt en.lastUsedAt now ttl = true →
      en.domain ∈ (l.foldl (restoreEntry config scope now ttl) acc).2) := by
  induction l generalizing acc with
  | nil => cases hmem
  | cons x l ih =>
    rw [pairwise_cons] at hap
    have hres : (restoreEntry config scope now ttl acc x).1.reserved = reserved := by
      rw [reserved_restoreEntry, hrs]
    rcases mem_cons.mp hmem with rfl | hmem
    · obtain ⟨hf, hr⟩ := hfr en (mem_cons_self ..) d a h
      have hrn := restoreEntry_of_free config scope now ttl hrs h hf hr
      constructor
      · intro hl
        apply forward_foldl_restoreEntry_of_apart config scope now ttl hres
        · rw [hrn, hl]
          exact get?_insert_self _ _ _
        · intro y hy
          exact (hap.1 y hy).1 d h.domain
      · intro hdd
        apply subset_foldl_restoreEntry config scope now ttl l _ hres
        rw [hrn, hdd]
        simp
    · apply ih hap.2 _ hres _ hmem
      intro y hy d' a' hy'
      obtain ⟨hf, hr⟩ := hfr y (mem_cons_of_mem x hy) d' a' hy'
      rcases restoreEntry_cases config scope now ttl hrs x with
        hc | ⟨_, _, _, _, hc⟩ | ⟨d'', a'', hel, _, hc⟩
      · rw [hc]
        exact ⟨hf, hr⟩
      · rw [hc]
        exact ⟨hf, hr⟩
      rw [hc]
      have hd : d' ≠ d'' := by
        rintro rfl
        exact (hap.1 y hy).1 d' hel.domain hy'.domain
      have ha : a' ≠ a'' := by
        rintro rfl
        exact (hap.1 y hy).2 a' hel.address hy'.address
      exact ⟨(get?_insert_of_ne _ _ hd).trans hf, (get?_insert_of_ne _ _ ha).trans hr⟩

variable {e : FakeIpEntryRecord} {t : Tables} {k : FakeIpKey}

theorem nodup_list (t : FakeIpEntries) (sc : FakeIpScope) : (t.list sc).Nodup := by
  apply ((perm_insertionSort _ _).nodup_iff).mpr
  apply Nodup.map
  · intro x y h
    have hk := congrArg FakeIpEntryRecord.toFakeIpKey h
    have hr := congrArg FakeIpEntryRecord.toFakeIpRow h
    exact Prod.ext hk hr
  · exact t.rows.nodup.of_map.filter _

theorem record_eq_of_key_eq {x y : FakeIpEntryRecord} (hk : x.toFakeIpKey = y.toFakeIpKey)
    (hr : x.toFakeIpRow = y.toFakeIpRow) : x = y := by
  cases x
  cases y
  cases hk
  cases hr
  rfl

variable {sc : FakeIpScope}

theorem key_of_scope_eq (h : e.toFakeIpScope = sc) : e.toFakeIpKey = sc.key e.domain := by
  rw [← h]
  rfl

theorem pairwise_apart_list (h : CanonicalRows sc t) : (t.entries.list sc).Pairwise (Apart f) := by
  apply (nodup_list t.entries sc).pairwise_of_forall_ne
  intro x hx y hy hne
  rw [mem_list] at hx hy
  have hkx := key_of_scope_eq hx.2
  have hky := key_of_scope_eq hy.2
  have hke : x.toFakeIpKey ≠ y.toFakeIpKey := by
    intro hk
    apply hne
    apply record_eq_of_key_eq hk
    have hr := hx.1
    rw [hk, hy.1] at hr
    exact (Option.some.inj hr).symm
  constructor
  · intro d hdx hdy
    have htx := h x.domain _ (hkx ▸ hx.1) d hdx
    have hty := h y.domain _ (hky ▸ hy.1) d hdy
    exact hke (by rw [hkx, hky, ← htx, ← hty])
  · intro a hax hay
    have hip : x.ip = y.ip := by
      rw [← Address.octets_of_ofOctets? hax, ← Address.octets_of_ofOctets? hay]
    exact hke (t.entries.reverse_unique _ _ _ _ hx.1 hy.1 (hx.2.trans hy.2.symm) hip)

variable {ord : AssocMap.IterOrder} {config : FakeIpConfig f} {scope : FakeIpScope}
  {options : FakeIpPoolOptions} {now : UnixTime} {m : Mapping f}

theorem loaded_of_rows (h : t.entries.list scope ≠ []) :
    (loaded config scope options now t).source = t.entries.list scope ∧
      (loaded config scope options now t).typedAbsent = false := by
  simp [loaded, h]

theorem loaded_of_noRows (h : t.entries.list scope = []) :
    (loaded config scope options now t).source =
        legacyRecords config scope now (t.listKeys f.mapPath) ∧
      (loaded config scope options now t).typedAbsent = true := by
  simp [loaded, h]

theorem text_of_mem_source (hc : CanonicalRows scope t)
    (he : e ∈ (loaded config scope options now t).source) (hs : e.toFakeIpScope = scope)
    (hd : new e.domain = .ok d) : e.domain = d.text := by
  by_cases hr : t.entries.list scope = []
  · rw [(loaded_of_noRows hr).1, legacyRecords, mem_map] at he
    obtain ⟨x, -, rfl⟩ := he
    cases (new_text x.1).symm.trans hd
    rfl
  · rw [(loaded_of_rows hr).1, mem_list] at he
    exact (hc e.domain _ (key_of_scope_eq hs ▸ he.1) d hd).symm

theorem openedState_sound
    (hm : (openedState ord config scope options now t).forward.get? d = some m) :
    d ∉ trimmed ord config scope options now t ∧
    ∃ e ∈ (loaded config scope options now t).source, ∃ a,
      Eligible config scope (loaded config scope options now t).reserved e d a ∧
        expiredAt e.lastUsedAt now.1 options.ttlSeconds = false ∧ m = mappingOf e a := by
  rw [openedState, forward_forgetAll] at hm
  split_ifs at hm with ht
  refine ⟨ht, ?_⟩
  rcases (foldl_restoreEntry_sound _ _ now.1 options.ttlSeconds _ _ rfl).1 d m hm with
    hn | h
  · cases hn
  · exact h

theorem expired_sound (hx : x ∈ (restored config scope options now t).2) :
    ∃ e ∈ (loaded config scope options now t).source, e.domain = x ∧
      expiredAt e.lastUsedAt now.1 options.ttlSeconds = true ∧
        e.toFakeIpScope = scope ∧ ∃ d, new x = .ok d := by
  rcases (foldl_restoreEntry_sound _ _ now.1 options.ttlSeconds _ _ rfl).2 x hx with
    hn | h
  · cases hn
  · exact h

theorem get?_prunedTables {r : FakeIpRow} :
    (prunedTables ord config scope options now t).entries.rows.get? k = some r ↔
      k ∉ (restored config scope options now t).2.map scope.key ∧
      k ∉ ((trimmed ord config scope options now t).map text).map scope.key ∧
      t.entries.rows.get? k = some r := by
  rw [prunedTables, Tables.get?_deleteDomains, Tables.get?_deleteDomains]
  split_ifs with ht he
  · exact ⟨nofun, fun h => absurd ht h.2.1⟩
  · exact ⟨nofun, fun h => absurd he h.1⟩
  · exact ⟨fun h => ⟨he, ht, h⟩, fun h => h.2.2⟩

theorem row_of_openedState (hc : CanonicalRows scope t) (hr : t.entries.list scope ≠ [])
    (hm : (openedState ord config scope options now t).forward.get? d = some m) :
    ∃ r, (prunedTables ord config scope options now t).entries.rows.get? (scope.key d.text) = some r
      ∧ r.ip = m.address.octets ∧ r.lastUsedAt = m.persistedLastUsedAt := by
  obtain ⟨htr, e, he, a, hel, hl, rfl⟩ := openedState_sound hm
  have ht := text_of_mem_source hc he hel.scope_eq hel.domain
  rw [(loaded_of_rows hr).1, mem_list] at he
  have hkey := ht ▸ key_of_scope_eq hel.scope_eq
  refine ⟨e.toFakeIpRow, get?_prunedTables.mpr ⟨?_, ?_, hkey ▸ he.1⟩,
    (Address.octets_of_ofOctets? hel.address).symm, rfl⟩
  · intro hex
    obtain ⟨x, hx, hxk⟩ := mem_map.mp hex
    obtain ⟨e', he', rfl, hdd, hs, _⟩ := expired_sound hx
    rw [(loaded_of_rows hr).1, mem_list, key_of_scope_eq hs, hxk, ← hkey, he.1] at he'
    rw [← Option.some.inj he'.1, hl] at hdd
    cases hdd
  · intro hmem
    rw [map_map, mem_map] at hmem
    obtain ⟨d', hd', hk⟩ := hmem
    rw [Function.comp_apply, FakeIpScope.key_inj, text_inj] at hk
    exact htr (hk ▸ hd')

def foreignRows (pool : FakeIpPool f) (now : UnixTime) (t : Tables) : List FakeIpEntryRecord :=
  (t.entries.listInRange pool.scope (if pool.scope.family = 4 then 4 else 16)
    pool.config.start.octets pool.config.stop.octets).filter
      fun e => !expiredAt e.lastUsedAt now.1 pool.options.ttlSeconds

theorem reservedOf_eq_none {rows : List FakeIpEntryRecord} {now ttl : Int64}
    (h : ∀ e ∈ rows, expiredAt e.lastUsedAt now ttl = false → e.ip ≠ a.octets) :
    (reservedOf rows now ttl).get? a = none := by
  apply foldlRecOn (motive := fun reserved : AssocMap (Address f) Int64 => reserved.get? a = none)
  · rfl
  intro reserved hn e he
  rw [mem_filter, Bool.not_eq_true'] at he
  split
  · next address ha =>
    have hne : a ≠ address := by
      rintro rfl
      exact h e he.1 he.2 (Address.octets_of_ofOctets? ha).symm
    rw [get?_insert_of_ne _ _ hne, hn]
  · exact hn

theorem reserved_loaded_eq_none {pool : FakeIpPool f}
    (h : ∀ e ∈ foreignRows pool now t, e.ip ≠ a.octets) :
    (loaded pool.config pool.scope pool.options now t).reserved.get? a = none := by
  unfold loaded
  dsimp only
  split
  all_goals
    apply reservedOf_eq_none
    intro e he hl
    apply h e
    rw [foreignRows, mem_filter, hl]
    exact ⟨he, rfl⟩

variable {poolPrefix : Text} {pool : FakeIpPool f} {s : PoolState f} {store : ConfigStore}

theorem mem_writtenEntries (h : e ∈ writtenEntries ord pool s) : ∃ d m, s.forward.get? d = some m ∧
      e = pool.entryRecord d m.address m.createdAt m.lastUsedAt := by
  rw [writtenEntries, mem_map] at h
  obtain ⟨x, hx, rfl⟩ := h
  rw [IterOrder.mem] at hx
  exact ⟨x.1, x.2, (s.forward.get?_eq_some_iff _ _).mpr hx, rfl⟩

variable {r : FakeIpRow}

theorem exists_mem_writtenEntries (h : s.forward.get? d = some m) :
    ∃ e ∈ writtenEntries ord pool s, e.toFakeIpKey = rowKey pool d := by
  refine ⟨pool.entryRecord d m.address m.createdAt m.lastUsedAt, ?_, rfl⟩
  rw [writtenEntries, mem_map]
  refine ⟨(d, m), ?_, rfl⟩
  rw [IterOrder.mem]
  exact (s.forward.get?_eq_some_iff _ _).mp h

theorem row_of_writtenEntries (hc : Coherent pool.config s)
    (hf : ∀ d m, s.forward.get? d = some m → m.lastUsedAt = m.persistedLastUsedAt)
    (en : FakeIpEntries) (hm : s.forward.get? d = some m) :
    HasRow ((writtenEntries ord pool s).foldl insertOrReplace en) (rowKey pool d)
      m.address.octets m.persistedLastUsedAt := by
  apply hasRow_foldl_of_mem en (exists_mem_writtenEntries hm)
  intro e he
  obtain ⟨d', m', hm', rfl⟩ := mem_writtenEntries he
  constructor
  · intro hk
    have hd := rowKey_inj.mp hk
    subst hd
    rw [hm] at hm'
    cases hm'
    exact ⟨rfl, hf _ _ hm⟩
  · intro _ hip
    have ha := Address.octets_inj.mp hip
    exact congrArg (rowKey _) (hc.inverse.eq_of_addr_eq hm' hm ha)

theorem Faithful.opened (h : Opened ord config poolPrefix options now t pool s store.tables)
    (hcn : CanonicalRows pool.scope t) : Faithful pool ⟨s, store⟩ := by
  have hc := Coherent.opened h
  refine ⟨hc, ?_⟩
  obtain ⟨rfl, _, rfl, hs, ht⟩ := h
  have hf : ∀ d m, s.forward.get? d = some m → m.lastUsedAt = m.persistedLastUsedAt := by
    intro d m hm
    rw [hs] at hm
    obtain ⟨_, e, _, a, _, _, rfl⟩ := openedState_sound hm
    rfl
  intro d m hm
  constructor
  · by_cases hr : t.entries.list pool.scope = []
    · rw [(loaded_of_noRows hr).2] at ht
      generalize store.tables = t' at ht
      cases ht with
      | nothing he =>
        have hmem : ∃ e ∈ writtenEntries ord _ s, e.toFakeIpKey = rowKey pool d :=
          exists_mem_writtenEntries hm
        simp [he] at hmem
      | imported => exact row_of_writtenEntries hc hf _ hm
    · rw [(loaded_of_rows hr).2] at ht
      generalize store.tables = t' at ht
      cases ht
      rw [hs] at hm
      exact row_of_openedState hcn hr hm
  · rw [hf d m hm, sub_self]
    exact Int64.lt_iff_toInt_lt.mp pool.touch_pos

theorem restored_complete (hc : CanonicalRows pool.scope t) (hr : t.entries.rows.get?
    (rowKey pool d) = some r)
    (ha : Address.ofOctets? f r.ip = some a) (hrn : pool.config.Contains a)
    (hf : ∀ e ∈ foreignRows pool now t, e.ip ≠ a.octets) :
    (expiredAt r.lastUsedAt now.1 pool.options.ttlSeconds = false →
      (restored pool.config pool.scope pool.options now t).1.forward.get? d =
        some ⟨a, r.createdAt, r.lastUsedAt, r.lastUsedAt⟩) ∧
    (expiredAt r.lastUsedAt now.1 pool.options.ttlSeconds = true →
      d.text ∈ (restored pool.config pool.scope pool.options now t).2) := by
  have hmem : (⟨rowKey _ d, r⟩ : FakeIpEntryRecord) ∈ t.entries.list pool.scope :=
    (mem_list _ _ _).mpr ⟨hr, rfl⟩
  have hrw := ne_nil_of_mem hmem
  have he : Eligible pool.config pool.scope
      (loaded pool.config pool.scope pool.options now t).reserved ⟨rowKey _ d, r⟩ d a :=
    ⟨ha, new_text d, rfl, hrn, reserved_loaded_eq_none hf⟩
  have hcm := foldl_restoreEntry_complete pool.config pool.scope now.1
    pool.options.ttlSeconds (pairwise_apart_list hc)
    (⟨(loaded pool.config pool.scope pool.options now t).next, ∅, ∅,
      (loaded pool.config pool.scope pool.options now t).reserved⟩, []) rfl
    (fun _ _ _ _ _ => ⟨rfl, rfl⟩) hmem he
  rw [restored, restore, (loaded_of_rows hrw).1]
  exact hcm

theorem row_of_wroteBack {ty : Bool} {t' : Tables} (h : WroteBack ord pool s now t ty t')
    (hr : t'.entries.rows.get? k = some r) :
    t.entries.rows.get? k = some r ∨ ∃ d m, s.forward.get? d = some m ∧ k = rowKey pool d := by
  cases h with
  | typed | nothing => exact .inl hr
  | imported =>
    rcases get?_foldl_insertOrReplace hr with hr | ⟨e, he, hk⟩
    · exact .inl hr
    · obtain ⟨d, m, hm, rfl⟩ := mem_writtenEntries he
      exact .inr ⟨d, m, hm, hk.symm⟩

/-- A pool opened on canonical rows, none of them on an address that a live row
of another prefix holds, knows every row it may restore. -/
theorem Complete.opened (h : Opened ord config poolPrefix options now t pool s store.tables)
    (hc : CanonicalRows pool.scope t)
    (hf : ∀ x ∈ t.entries.list pool.scope, ∀ y ∈ foreignRows pool now t, y.ip ≠ x.ip) :
    Complete pool ⟨s, store⟩ := by
  obtain ⟨rfl, _, rfl, hs, ht⟩ := h
  constructor
  · intro d r a hr ha hrn
    rcases row_of_wroteBack ht hr with hr | ⟨d', m, hm, hk⟩
    · obtain ⟨hex, htr, hr⟩ := get?_prunedTables.mp hr
      have hmem : (⟨rowKey _ d, r⟩ : FakeIpEntryRecord) ∈ t.entries.list pool.scope :=
        (mem_list _ _ _).mpr ⟨hr, rfl⟩
      have hcm := restored_complete hc hr ha hrn fun e he =>
        (Address.octets_of_ofOctets? ha).symm ▸ hf _ hmem e he
      have hl : expiredAt r.lastUsedAt now.1 pool.options.ttlSeconds = false := by
        rw [← Bool.not_eq_true]
        intro hdd
        exact hex (mem_map.mpr ⟨d.text, hcm.2 hdd, rfl⟩)
      have hkp : d ∉ trimmed ord pool.config pool.scope pool.options now t := by
        intro hd
        exact htr (mem_map.mpr ⟨d.text, mem_map.mpr ⟨d, hd, rfl⟩, rfl⟩)
      have hfr : s.forward.get? d = some ⟨a, r.createdAt, r.lastUsedAt, r.lastUsedAt⟩ := by
        rw [hs, openedState, forward_forgetAll, if_neg hkp]
        exact hcm.1 hl
      exact ⟨_, hfr⟩
    · cases rowKey_inj.mp hk
      exact ⟨m, hm⟩
  · apply hc.of_rows
    intro k r hr
    rcases row_of_wroteBack ht hr with hr | ⟨d, _, _, hk⟩
    · exact .inl ⟨r, (get?_prunedTables.mp hr).2.2⟩
    · exact .inr ⟨d, hk⟩

end Doradus
