import Doradus.Store.FakeIpSession

/-!
# The memory of a pool as a cache of its rows

Every mapping has a row of its own with the same address and the time that the mapping remembers as
written; and no in-range row of the scope is missing from the memory. Each operation writes before
it forgets, so both hold after every effect, whatever transactions fail.
-/

namespace Doradus

open FakeIpPool PoolState FakeIpEntries List Option AssocMap Prod DomainName Tables

variable {f : Family} {d d' : DomainName}

theorem DomainName.text_inj : d.text = d'.text ↔ d = d' := ⟨DomainName.ext, congrArg text⟩

variable {r : FakeIpRow} {e : FakeIpEntryRecord} (pool : FakeIpPool f)

def rowKey (d : DomainName) : FakeIpKey := pool.scope.key d.text

/-- Every mapping agrees with its row, and the row is not too far behind. -/
def Cached (w : World f) : Prop :=
  ∀ d m, w.memory.forward.get? d = some m →
    (∃ r, w.store.tables.entries.rows.get? (rowKey pool d) = some r ∧ r.ip = m.address.octets ∧
      r.lastUsedAt = m.persistedLastUsedAt) ∧
    m.lastUsedAt.toInt - m.persistedLastUsedAt.toInt < pool.options.touchIntervalSeconds.toInt

def Backed (w : World f) : Prop :=
  ∀ d r a, w.store.tables.entries.rows.get? (rowKey pool d) = some r →
    Address.ofOctets? f r.ip = some a → pool.config.Contains a →
      ∃ m, w.memory.forward.get? d = some m

/-- The rows of the scope spell domains as `DomainName` does. -/
def CanonicalRows (scope : FakeIpScope) (t : Tables) : Prop :=
  ∀ domain r, t.entries.rows.get? (scope.key domain) = some r →
    ∀ d, DomainName.new domain = .ok d → d.text = domain

variable {pool}

@[simp] theorem rowKey_inj : rowKey pool d = rowKey pool d' ↔ d = d' := by
  rw [rowKey, rowKey, FakeIpScope.key_inj, text_inj]

theorem rowKey_mem_map {domains : List DomainName} :
    rowKey pool d ∈ (domains.map text).map pool.scope.key ↔ d ∈ domains := by
  rw [List.map_map, List.mem_map]
  constructor
  · intro h
    obtain ⟨d', hd', he⟩ := h
    rwa [rowKey_inj.mp he] at hd'
  · intro h
    exact ⟨d, h, rfl⟩

variable {ord : AssocMap.IterOrder} {s : PoolState f}

theorem settle_text (s : PoolState f) (d : DomainName) (t : Int64) : settle s (d.text, t) =
      s.modifyMapping d fun m => { m with persistedLastUsedAt := m.lastUsedAt } := by
  unfold settle
  rw [new_text]

variable {l : List (DomainName × Mapping f)} {m : Mapping f}

theorem forward_foldl_settle_of_notMem (s : PoolState f) (h : d ∉ l.map Prod.fst) :
    ((l.map fun e => (e.1.text, e.2.lastUsedAt)).foldl settle s).forward.get? d =
      s.forward.get? d := by
  induction l generalizing s with
  | nil => rfl
  | cons _ _ ih =>
    rw [map_cons, mem_cons, not_or] at h
    rw [map_cons, foldl_cons, ih _ h.2, settle_text, modifyMapping, get?_modify, if_neg h.1]

def Mapping.settled (m : Mapping f) : Mapping f := { m with persistedLastUsedAt := m.lastUsedAt }

theorem Mapping.settled_eq_self (h : m.lastUsedAt = m.persistedLastUsedAt) : m.settled = m := by
  cases m
  simpa [Mapping.settled] using h

theorem forward_foldl_settle_of_mem (s : PoolState f) (h : d ∈ l.map Prod.fst) :
    ((l.map fun e => (e.1.text, e.2.lastUsedAt)).foldl settle s).forward.get? d =
      (s.forward.get? d).map Mapping.settled := by
  induction l generalizing s with
  | nil => cases h
  | cons e l ih =>
    rw [map_cons, foldl_cons, settle_text]
    by_cases hmem : d ∈ l.map fst
    · rw [ih _ hmem, modifyMapping, get?_modify]
      by_cases hd : d = e.1
      · cases s.forward.get? d <;> simp [hd, Mapping.settled]
      · rw [if_neg hd]
    · rw [forward_foldl_settle_of_notMem _ hmem, modifyMapping, get?_modify]
      rw [map_cons, mem_cons] at h
      rw [if_pos (h.resolve_right hmem)]
      rfl

theorem mem_pendingTouches {e : DomainName × Mapping f} : e ∈ pendingTouches ord s ↔
      s.forward.get? e.1 = some e.2 ∧ e.2.lastUsedAt ≠ e.2.persistedLastUsedAt := by
  rw [pendingTouches, mem_filter, IterOrder.mem, decide_eq_true_eq, get?_eq_some_iff]

theorem nodup_pendingTouches : (((pendingTouches ord s).map fun e => (e.1.text, e.2.lastUsedAt)).map
      Prod.fst).Nodup := by
  have hk : ((ord s.forward.entries).map Prod.fst).Nodup :=
    (((ord.perm s.forward.entries).map Prod.fst).nodup_iff).mpr s.forward.nodup
  have ht : ((ord s.forward.entries).map fun e => e.1.text).Nodup := by
    have hm := hk.map (f := text) fun _ _ h => text_inj.mp h
    rwa [List.map_map] at hm
  rw [List.map_map]
  exact ht.sublist (List.filter_sublist.map _)

theorem mem_map_pendingTouches (hm : s.forward.get? d = some m) :
    d ∈ (pendingTouches ord s).map Prod.fst ↔ m.lastUsedAt ≠ m.persistedLastUsedAt := by
  rw [List.mem_map]
  constructor
  · intro h
    obtain ⟨e, he, rfl⟩ := h
    rw [mem_pendingTouches, hm] at he
    cases he.1
    exact he.2
  · intro h
    exact ⟨(d, m), mem_pendingTouches.mpr ⟨hm, h⟩, rfl⟩

theorem forward_flush (ord : AssocMap.IterOrder) (s : PoolState f) (d : DomainName) :
    (((pendingTouches ord s).map fun e => (e.1.text, e.2.lastUsedAt)).foldl
      settle s).forward.get? d = (s.forward.get? d).map Mapping.settled := by
  by_cases hmem : d ∈ (pendingTouches ord s).map fst
  · exact forward_foldl_settle_of_mem s hmem
  rw [forward_foldl_settle_of_notMem s hmem]
  cases hm : s.forward.get? d with
  | none => rfl
  | some =>
    rw [mem_map_pendingTouches hm, not_not] at hmem
    rw [map_some, Mapping.settled_eq_self hmem]

theorem row_flush {pool : FakeIpPool f} (ord : AssocMap.IterOrder) (t : Tables)
    (hm : s.forward.get? d = some m) (hr : t.entries.rows.get? (rowKey pool d) = some r)
    (hl : r.lastUsedAt = m.persistedLastUsedAt) :
    (t.touchDomains pool.scope ((pendingTouches ord s).map
      fun e => (e.1.text, e.2.lastUsedAt))).2.entries.rows.get? (rowKey pool d) =
        some { r with lastUsedAt := m.lastUsedAt } := by
  by_cases hp : m.lastUsedAt = m.persistedLastUsedAt
  · have hn : d.text ∉ ((pendingTouches ord s).map
        fun e => (e.1.text, e.2.lastUsedAt)).map Prod.fst := by
      rw [List.map_map, List.mem_map]
      intro h
      obtain ⟨e, he, ht⟩ := h
      have hd := text_inj.mp ht
      have hmem := List.mem_map.mpr ⟨e, he, hd⟩
      exact (mem_map_pendingTouches hm).mp hmem hp
    rw [rowKey, get?_touchDomains_of_notMem _ _ hn]
    rw [rowKey] at hr
    rw [hr, hp, ← hl]
  · have hmem : (d.text, m.lastUsedAt) ∈ (pendingTouches ord s).map
        fun e => (e.1.text, e.2.lastUsedAt) :=
      List.mem_map.mpr ⟨(d, m), mem_pendingTouches.mpr ⟨hm, hp⟩, rfl⟩
    rw [rowKey, get?_touchDomains_of_mem _ _ nodup_pendingTouches hmem]
    rw [rowKey] at hr
    rw [hr]
    rfl

namespace Cached

variable {w : World f}

section

variable (h : Cached pool w)
include h

variable {st : ConfigStore}

theorem flush (ord : AssocMap.IterOrder)
    (ht : st.tables = (w.store.tables.touchDomains pool.scope ((pendingTouches ord
      w.memory).map fun e => (e.1.text, e.2.lastUsedAt))).2) :
    Cached pool ⟨((pendingTouches ord w.memory).map
      fun e => (e.1.text, e.2.lastUsedAt)).foldl settle w.memory, st⟩ := by
  intro d _ hm'
  rw [forward_flush] at hm'
  obtain ⟨m, hm, rfl⟩ := map_eq_some_iff.mp hm'
  obtain ⟨⟨r, hr, hip, hl⟩, _⟩ := h d m hm
  have hrow := row_flush ord w.store.tables hm hr hl
  rw [← ht] at hrow
  have hp := Int64.lt_iff_toInt_lt.mp pool.touch_pos
  exact ⟨⟨_, hrow, hip, rfl⟩, by simpa [Mapping.settled] using hp⟩

variable {now : Int64}

theorem touch (ht : st.tables = (w.store.tables.touchDomains pool.scope [(d.text, now)]).2) :
    Cached pool ⟨w.memory.modifyMapping d fun m =>
      { m with persistedLastUsedAt := now, lastUsedAt := now }, st⟩ := by
  intro d' m' hm'
  rw [modifyMapping, AssocMap.get?_modify] at hm'
  by_cases hd : d' = d
  · subst hd
    rw [if_pos rfl] at hm'
    obtain ⟨m, hm, rfl⟩ := map_eq_some_iff.mp hm'
    obtain ⟨⟨r, hr, hip, _⟩, _⟩ := h d' m hm
    have hrow := get?_touchDomains_of_mem w.store.tables pool.scope
      (by simp) (mem_singleton_self (d'.text, now))
    rw [← ht, show pool.scope.key d'.text = rowKey pool d' from rfl, hr] at hrow
    have hp := Int64.lt_iff_toInt_lt.mp pool.touch_pos
    exact ⟨⟨_, hrow, hip, rfl⟩, by simpa using hp⟩
  · rw [if_neg hd] at hm'
    obtain ⟨⟨r, hr, hip, hl⟩, hrc⟩ := h d' m' hm'
    have hn : d'.text ∉ [(d.text, now)].map fst := by simpa [text_inj] using hd
    have hrow := get?_touchDomains_of_notMem w.store.tables pool.scope hn
    rw [← ht, show pool.scope.key d'.text = rowKey pool d' from rfl, hr] at hrow
    exact ⟨⟨r, hrow, hip, hl⟩, hrc⟩

theorem forgetAll (dm : List DomainName)
    (ht : st.tables = (w.store.tables.deleteDomains pool.scope (dm.map text)).2) :
    Cached pool ⟨w.memory.forgetAll dm, st⟩ := by
  intro d m hm
  rw [forward_forgetAll] at hm
  split_ifs at hm with hd
  obtain ⟨⟨r, hr, hrow⟩, hrc⟩ := h d m hm
  refine ⟨⟨r, ?_, hrow⟩, hrc⟩
  rw [ht, get?_deleteDomains, if_neg (rowKey_mem_map.not.mpr hd)]
  exact hr

theorem use {m : Mapping f} (hf : w.memory.forward.get? d = some m)
    (hr : saturatingSub now m.persistedLastUsedAt < pool.options.touchIntervalSeconds) :
    Cached pool { w with memory := w.memory.modifyMapping d fun m =>
      { m with lastUsedAt := now } } := by
  intro d' m' hm'
  simp only [modifyMapping, AssocMap.get?_modify] at hm'
  by_cases hd : d' = d
  · subst hd
    rw [if_pos rfl, hf] at hm'
    cases hm'
    exact ⟨(h d' m hf).1, toInt_sub_lt_of_saturatingSub_lt hr⟩
  · rw [if_neg hd] at hm'
    exact h d' m' hm'

theorem assign (hc : Coherent pool.config w.memory) {a : Address f}
    {ev : Option DomainName} (hs : Selected pool w.memory a ev)
    (ht : w.store.tables.replaceEntry (pool.entryRecord d a now now) (pool.cursorRecord
      (pool.candidate a 1) now) (ev.map text) = .ok ((), st.tables)) :
    Cached pool ⟨{ (w.memory.forgetAll ev.toList).record d ⟨a, now, now, now⟩
      with next := pool.candidate a 1 }, st⟩ := by
  intro d' m' hm'
  simp only [record, AssocMap.get?_insert] at hm'
  by_cases hd : d' = d
  · subst hd
    rw [if_pos rfl] at hm'
    cases hm'
    have hp := Int64.lt_iff_toInt_lt.mp pool.touch_pos
    refine ⟨⟨_, (get?_replaceEntry ht _ _).mpr (Or.inl ⟨rfl, rfl⟩), rfl, rfl⟩, ?_⟩
    simpa using hp
  rw [forward_forgetAll] at hm'
  split_ifs at hm' with hev
  obtain ⟨⟨r, hr, hip, hl⟩, hrc⟩ := h d' m' hm'
  refine ⟨⟨r, (get?_replaceEntry ht _ _).mpr (.inr ⟨?_, ?_, hr, ?_⟩), hip, hl⟩, hrc⟩
  · exact fun hk => hd (rowKey_inj.mp hk)
  · intro _ hdm hk
    obtain ⟨e, he, rfl⟩ := map_eq_some_iff.mp hdm
    have hde := rowKey_inj.mp hk
    exact hev (by rw [mem_toList, hde]; exact he)
  intro hsm
  have ha := Address.octets_inj.mp (hip.symm.trans hsm.2)
  cases hs with
  | free _ hrv =>
    have hb := hc.inverse.get?_rev hm'
    rw [ha, hrv] at hb
    cases hb
  | evict _ hf =>
    have hde := hc.inverse.eq_of_addr_eq hm' hf ha
    exact hev (by simp [hde])

end

theorem effect {w' : World f} (he : Effect pool w w') (hc : Coherent pool.config w.memory)
    (h : Cached pool w) : Cached pool w' := by
  cases he with
  | fault ht =>
    intro d m hm
    rw [ht]
    exact h d m hm
  | retain => exact h
  | forget dm ht => exact h.forgetAll dm ht
  | use hf hr => exact h.use hf hr
  | touch ht => exact h.touch ht
  | flush ord ht => exact h.flush ord ht
  | assign _ hs ht => exact h.assign hc hs ht

end Cached

variable {w w' : World f}

theorem mapped_modifyMapping {g : Mapping f → Mapping f}
    (h : ∃ m, s.forward.get? d = some m) : ∃ m, (s.modifyMapping d' g).forward.get? d = some m := by
  obtain ⟨m, hm⟩ := h
  rw [modifyMapping, get?_modify, hm]
  split_ifs
  · exact ⟨g m, rfl⟩
  · exact ⟨m, rfl⟩

theorem Backed.touchDomains (h : Backed pool w) {t : List (Text × Int64)} {st : ConfigStore}
    (ht : st.tables = (w.store.tables.touchDomains pool.scope t).2)
    (hs : ∀ d, (∃ m, w.memory.forward.get? d = some m) → ∃ m, s.forward.get? d = some m) :
    Backed pool ⟨s, st⟩ := by
  intro d r a hr ha hrn
  rw [ht] at hr
  obtain ⟨r₀, hr₀, hip⟩ := get?_touchDomains_ip _ _ hr
  rw [← hip] at ha
  exact hs d (h d r₀ a hr₀ ha hrn)

theorem Backed.effect (he : Effect pool w w') (h : Backed pool w) : Backed pool w' := by
  cases he with
  | fault ht =>
    intro d r a hr
    rw [ht] at hr
    exact h d r a hr
  | retain => exact h
  | forget _ ht =>
    intro d r a hr ha hrn
    rw [ht, get?_deleteDomains] at hr
    split_ifs at hr with hd
    rw [rowKey_mem_map] at hd
    rw [forward_forgetAll, if_neg hd]
    exact h d r a hr ha hrn
  | use =>
    intro d r a hr ha hrn
    exact mapped_modifyMapping (h d r a hr ha hrn)
  | touch ht => exact h.touchDomains ht fun d hd => mapped_modifyMapping hd
  | flush _ ht =>
    apply h.touchDomains ht
    intro d hd
    obtain ⟨m, hm⟩ := hd
    rw [forward_flush, hm]
    exact ⟨_, rfl⟩
  | assign _ _ ht =>
    intro d' r' a' hr' ha' hrn
    simp only [record, get?_insert]
    split_ifs with hd
    · exact ⟨_, rfl⟩
    rcases (get?_replaceEntry ht _ _).mp hr' with ⟨hk, _⟩ | ⟨_, hev, hold, _⟩
    · exact absurd (rowKey_inj.mp hk) hd
    rw [forward_forgetAll, if_neg]
    · exact h d' r' a' hold ha' hrn
    · intro hmem
      rw [mem_toList] at hmem
      exact hev d'.text (mem_map_of_mem text hmem) rfl

theorem CanonicalRows.of_rows {sc : FakeIpScope} {t t' : Tables} (h : CanonicalRows sc t)
    (hrw : ∀ k r, t'.entries.rows.get? k = some r → (∃ r₀, t.entries.rows.get? k = some r₀) ∨
      ∃ d : DomainName, k = sc.key d.text) : CanonicalRows sc t' := by
  intro dm r hr d hd
  rcases hrw _ r hr with ⟨r₀, hr₀⟩ | ⟨d', hk⟩
  · exact h dm r₀ hr₀ d hd
  rw [FakeIpScope.key_inj] at hk
  rw [hk, new_text] at hd
  cases hd
  exact hk.symm

theorem CanonicalRows.effect (he : Effect pool w w') (h : CanonicalRows pool.scope w.store.tables) :
    CanonicalRows pool.scope w'.store.tables := by
  apply h.of_rows
  intro k r hr
  cases he with
  | fault ht =>
    rw [ht] at hr
    exact .inl ⟨r, hr⟩
  | retain | use => exact .inl ⟨r, hr⟩
  | forget _ ht =>
    rw [ht, get?_deleteDomains] at hr
    split_ifs at hr
    exact .inl ⟨r, hr⟩
  | touch ht | flush _ ht =>
    rw [ht] at hr
    obtain ⟨r₀, hr₀, _⟩ := get?_touchDomains_ip _ _ hr
    exact .inl ⟨r₀, hr₀⟩
  | assign _ _ ht =>
    rcases (get?_replaceEntry ht _ _).mp hr with ⟨hk, _⟩ | ⟨_, _, hold, _⟩
    · exact .inr ⟨_, hk⟩
    · exact .inl ⟨r, hold⟩

variable {k : FakeIpKey} {ip : List UInt8} {time : Int64}

def HasRow (t : FakeIpEntries) (k : FakeIpKey) (ip : List UInt8) (time : Int64) : Prop :=
  ∃ r, t.rows.get? k = some r ∧ r.ip = ip ∧ r.lastUsedAt = time

/-- A record does not disturb a row: it writes the same, or writes elsewhere. -/
def Respects (k : FakeIpKey) (ip : List UInt8) (time : Int64) (e : FakeIpEntryRecord) : Prop :=
  (e.toFakeIpKey = k → e.ip = ip ∧ e.lastUsedAt = time) ∧
    (e.toFakeIpScope = k.toFakeIpScope → e.ip = ip → e.toFakeIpKey = k)

variable {t : FakeIpEntries}

theorem HasRow.insertOrReplace (h : HasRow t k ip time)
    (he : Respects k ip time e) : HasRow (t.insertOrReplace e) k ip time := by
  obtain ⟨r, hr, hip, ht⟩ := h
  by_cases hk : e.toFakeIpKey = k
  · have hrow := he.1 hk
    refine ⟨e.toFakeIpRow, ?_, hrow.1, hrow.2⟩
    exact (get?_insertOrReplace _ _ _ _).mpr (.inl ⟨hk.symm, rfl⟩)
  refine ⟨r, ?_, hip, ht⟩
  apply (get?_insertOrReplace _ _ _ _).mpr
  refine .inr ⟨fun h => hk h.symm, hr, ?_⟩
  intro hs
  exact hk (he.2 hs.1.symm (hs.2.symm.trans hip))

variable {l : List FakeIpEntryRecord}

theorem HasRow.foldl (h : HasRow t k ip time) (hl : ∀ e ∈ l, Respects k ip time e) :
    HasRow (l.foldl FakeIpEntries.insertOrReplace t) k ip time := by
  induction l generalizing t with
  | nil => exact h
  | cons e _ ih =>
    exact ih (h.insertOrReplace (hl e (mem_cons_self ..)))
      fun x hx => hl x (mem_cons_of_mem e hx)

theorem hasRow_foldl_of_mem (t : FakeIpEntries) (hmem : ∃ e ∈ l, e.toFakeIpKey = k)
    (hl : ∀ e ∈ l, Respects k ip time e) :
    HasRow (l.foldl FakeIpEntries.insertOrReplace t) k ip time := by
  induction l generalizing t with
  | nil =>
    obtain ⟨e, he, _⟩ := hmem
    cases he
  | cons e l ih =>
    have hr := fun x hx => hl x (mem_cons_of_mem e hx)
    by_cases hk : e.toFakeIpKey = k
    · have hrow := (hl e (mem_cons_self ..)).1 hk
      apply HasRow.foldl _ hr
      exact ⟨e.toFakeIpRow, (get?_insertOrReplace _ _ _ _).mpr
        (.inl ⟨hk.symm, rfl⟩), hrow.1, hrow.2⟩
    apply ih _ _ hr
    obtain ⟨x, hx, hxk⟩ := hmem
    rcases mem_cons.mp hx with rfl | hx
    · exact absurd hxk hk
    · exact ⟨x, hx, hxk⟩

theorem get?_foldl_insertOrReplace (h : (l.foldl insertOrReplace t).rows.get? k = some r) :
    t.rows.get? k = some r ∨ ∃ e ∈ l, e.toFakeIpKey = k := by
  induction l generalizing t with
  | nil => exact .inl h
  | cons e _ ih =>
    rcases ih h with hr | ⟨x, hx, hk⟩
    · rcases (get?_insertOrReplace _ _ _ _).mp hr with ⟨hk, _⟩ | ⟨_, hold, _⟩
      · exact .inr ⟨e, mem_cons_self .., hk.symm⟩
      · exact .inl hold
    · exact .inr ⟨x, mem_cons_of_mem e hx, hk⟩

variable {l : List (Address f × DomainName)} {en : List (LegacyFakeIpEntry f)}

theorem forward_foldl_record_of_notMem (now : Int64) (s : PoolState f) (h : ∀ e ∈ l, e.2 ≠ d) :
    (l.foldl (fun s e => s.record e.2 ⟨e.1, now, now, now⟩) s).forward.get? d =
      s.forward.get? d := by
  induction l generalizing s with
  | nil => rfl
  | cons e _ ih =>
    rw [foldl_cons, ih _ fun x hx => h x (mem_cons_of_mem e hx)]
    exact get?_insert_of_ne _ _ (h e (mem_cons_self ..)).symm

theorem forward_foldl_record_of_mem (now : Int64)
    (hp : l.Pairwise fun x y => x.1 ≠ y.1 ∧ x.2 ≠ y.2) (s : PoolState f)
    {e : Address f × DomainName} (h : e ∈ l) :
    (l.foldl (fun s e => s.record e.2 ⟨e.1, now, now, now⟩) s).forward.get? e.2 =
      some ⟨e.1, now, now, now⟩ := by
  induction l generalizing s with
  | nil => cases h
  | cons _ _ ih =>
    rw [pairwise_cons] at hp
    rw [foldl_cons]
    rcases mem_cons.mp h with rfl | h
    · rw [forward_foldl_record_of_notMem now _ fun y hy => (hp.1 y hy).2.symm]
      exact get?_insert_self _ _ _
    · exact ih hp.2 _ h

variable {clock : ℕ → UnixTime}

theorem mem_draftRecords {ind : ℕ} (h : e ∈ draftRecords pool clock ind en) :
    ∃ ent ∈ en, ∃ i < en.length, e = pool.entryRecord ent.domain ent.address
      (clock (2 * (ind + i))).1 (clock (2 * (ind + i) + 1)).1 := by
  induction en generalizing ind with
  | nil => cases h
  | cons ent _ ih =>
    rcases mem_cons.mp h with rfl | h
    · exact ⟨ent, mem_cons_self .., 0, Nat.succ_pos _, rfl⟩
    · obtain ⟨x, hx, i, hi, he⟩ := ih h
      refine ⟨x, mem_cons_of_mem ent hx, i + 1, Nat.succ_lt_succ hi, ?_⟩
      rw [he, show ind + (i + 1) = ind + 1 + i by omega]

theorem exists_mem_draftRecords (ind : ℕ) {ent : LegacyFakeIpEntry f} (h : ent ∈ en) :
    ∃ e ∈ draftRecords pool clock ind en, e.toFakeIpKey = rowKey pool ent.domain := by
  induction en generalizing ind with
  | nil => cases h
  | cons _ _ ih =>
    rcases mem_cons.mp h with rfl | h
    · exact ⟨_, mem_cons_self .., rfl⟩
    · obtain ⟨e, he, hk⟩ := ih (ind + 1) h
      exact ⟨e, mem_cons_of_mem _ he, hk⟩

/-- The clock shows the time of publication at every row of the import. -/
def SteadyImport (snapshot : LegacyFakeIpSnapshot f) (clock : ℕ → UnixTime) : Prop :=
  ∀ i < snapshot.entries.length, clock (2 * i + 1) = clock (2 * snapshot.entries.length)

instance (snapshot : LegacyFakeIpSnapshot f) (clock : ℕ → UnixTime) :
    Decidable (SteadyImport snapshot clock) :=
  inferInstanceAs (Decidable (∀ i < snapshot.entries.length, _))

variable {snapshot : LegacyFakeIpSnapshot f} {draft : ImportDraft f}

section

variable (h : Imported pool ord snapshot clock w w' draft)
include h

theorem Imported.records :
    draft.entries = draftRecords pool clock 0 snapshot.entries := h.drafted.records

theorem Imported.entry_unique {x y : LegacyFakeIpEntry f} (hx : x ∈ snapshot.entries)
    (hy : y ∈ snapshot.entries) :
    x.domain = y.domain ↔ x.address = y.address := by
  have hgx := (h.drafted.imported x.address x.domain).mpr (.inr hx)
  have hgy := (h.drafted.imported y.address y.domain).mpr (.inr hy)
  constructor
  · intro hd
    exact h.drafted.draftOk.inverse.eq_of_addr_eq hgx hgy hd
  · intro ha
    rw [ha, hgy] at hgx
    exact (some.inj hgx).symm

theorem Imported.forward (d : DomainName) :
    (∃ a, draft.importedIps.get? a = some d ∧ w'.memory.forward.get? d =
      some ⟨a, (clock (2 * snapshot.entries.length)).1, (clock (2 * snapshot.entries.length)).1,
        (clock (2 * snapshot.entries.length)).1⟩) ∨
    ((∀ a, draft.importedIps.get? a ≠ some d) ∧
      w'.memory.forward.get? d = w.memory.forward.get? d) := by
  rw [h.memory]
  by_cases hd : ∃ a, draft.importedIps.get? a = some d
  · obtain ⟨a, ha⟩ := hd
    have hmem : (a, d) ∈ ord draft.importedIps.entries := by
      rw [IterOrder.mem]
      exact (draft.importedIps.get?_eq_some_iff a d).mp ha
    exact .inl ⟨a, ha, forward_foldl_record_of_mem _
      (h.drafted.draftOk.pairwise (ord.perm _)) _ hmem⟩
  · push Not at hd
    refine .inr ⟨hd, forward_foldl_record_of_notMem _ _ ?_⟩
    intro e he hed
    rw [IterOrder.mem] at he
    exact hd e.1 (hed ▸ (draft.importedIps.get?_eq_some_iff _ _).mpr he)

theorem Imported.respects_old (hc : Coherent pool.config w.memory)
    (hm : w.memory.forward.get? d = some m) (hd : ∀ a, draft.importedIps.get? a ≠ some d)
    (time : Int64) : ∀ e ∈ draft.entries, Respects (rowKey pool d) m.address.octets time e := by
  intro e he
  rw [h.records] at he
  obtain ⟨x, hen, i, _, rfl⟩ := mem_draftRecords he
  have hi := (h.drafted.imported x.address x.domain).mpr (.inr hen)
  constructor
  · intro hk
    have hdm := rowKey_inj.mp hk
    rw [hdm] at hi
    exact absurd hi (hd _)
  intro _ hip
  have ha := Address.octets_inj.mp hip
  have hb := hc.inverse.get?_rev hm
  have hf := ((unclaimed_iff _ _).mp h.drafted.unclaimed _ _ hi).1 d (by rw [ha]; exact hb)
  rw [← hf] at hi
  exact absurd hi (hd _)

theorem Imported.respects_new (hs : SteadyImport snapshot clock) {en : LegacyFakeIpEntry f}
    (hen : en ∈ snapshot.entries) :
    ∀ e ∈ draft.entries, Respects (rowKey pool en.domain) en.address.octets
      (clock (2 * snapshot.entries.length)).1 e := by
  intro e he
  rw [h.records] at he
  obtain ⟨x, hx, i, hi, rfl⟩ := mem_draftRecords he
  constructor
  · intro hk
    have hd := rowKey_inj.mp hk
    have ha := (h.entry_unique hx hen).mp hd
    have ht := hs i hi
    refine ⟨congrArg Address.octets ha, ?_⟩
    simp [entryRecord, ht]
  · intro _ hip
    have ha := Address.octets_inj.mp hip
    exact rowKey_inj.mpr ((h.entry_unique hx hen).mpr ha)

end

theorem Cached.imported (h : Cached pool w) (hc : Coherent pool.config w.memory)
    (hi : Imported pool ord snapshot clock w w' draft) (hs : SteadyImport snapshot clock) :
    Cached pool w' := by
  intro d m hm
  rcases hi.forward d with ⟨a, ha, hn⟩ | ⟨hd, hold⟩
  · rw [hn] at hm
    cases hm
    have he := ((hi.drafted.imported _ _).mp ha).resolve_left nofun
    have hrow := hasRow_foldl_of_mem w.store.tables.entries
      (by rw [hi.records]; exact exists_mem_draftRecords 0 he) (hi.respects_new hs he)
    rw [← hi.entries] at hrow
    have hp := Int64.lt_iff_toInt_lt.mp pool.touch_pos
    exact ⟨hrow, by simpa using hp⟩
  · rw [hold] at hm
    obtain ⟨hrow, hr⟩ := h d m hm
    refine ⟨?_, hr⟩
    have hk := HasRow.foldl hrow (hi.respects_old hc hm hd m.persistedLastUsedAt)
    rw [← hi.entries] at hk
    exact hk

theorem Backed.imported (h : Backed pool w) (hi : Imported pool ord snapshot clock w w' draft) :
    Backed pool w' := by
  intro d r a hr ha hrn
  rcases hi.forward d with ⟨a', _, hn⟩ | ⟨hd, hold⟩
  · exact ⟨_, hn⟩
  rw [hold]
  rw [hi.entries] at hr
  rcases get?_foldl_insertOrReplace hr with hr | ⟨e, he, hk⟩
  · exact h d r a hr ha hrn
  rw [hi.records] at he
  obtain ⟨x, hen, i, _, rfl⟩ := mem_draftRecords he
  have hdm := rowKey_inj.mp hk
  have him := (hi.drafted.imported x.address x.domain).mpr (.inr hen)
  rw [hdm] at him
  exact absurd him (hd _)

theorem CanonicalRows.imported (h : CanonicalRows pool.scope w.store.tables)
    (hi : Imported pool ord snapshot clock w w' draft) :
    CanonicalRows pool.scope w'.store.tables := by
  apply h.of_rows
  intro k r hr
  rw [hi.entries] at hr
  rcases get?_foldl_insertOrReplace hr with hr | ⟨e, he, hk⟩
  · exact .inl ⟨r, hr⟩
  · rw [hi.records] at he
    obtain ⟨x, _, _, _, rfl⟩ := mem_draftRecords he
    exact .inr ⟨x.domain, hk.symm⟩

def SteadyClock : World f → PoolCall f → Prop
  | _, .importLegacy _ _ snapshot clock => SteadyImport snapshot clock
  | _, _ => True

instance (w : World f) (call : PoolCall f) : Decidable (SteadyClock w call) :=
  match call with
  | .importLegacy _ _ snapshot clock => inferInstanceAs (Decidable (SteadyImport snapshot clock))
  | .allocateAt _ _ _ => .isTrue trivial
  | .release _ => .isTrue trivial
  | .flushTouches _ => .isTrue trivial

structure Faithful (pool : FakeIpPool f) (w : World f) : Prop where
  coherent : Coherent pool.config w.memory
  cached : Cached pool w

structure Complete (pool : FakeIpPool f) (w : World f) : Prop where
  backed : Backed pool w
  canonical : CanonicalRows pool.scope w.store.tables

theorem Faithful.call (h : Faithful pool w) (call : PoolCall f) (hs : SteadyClock w call) :
    Faithful pool (call.run pool w) := by
  rcases PoolCall.run_cases pool w call with hr | ⟨ord, marker, snapshot, clock, draft, hc, hi⟩
  · exact hr.invariant (fun _ _ he h => ⟨h.coherent.effect he, h.cached.effect he h.coherent⟩) h
  · subst hc
    exact ⟨h.coherent.imported hi, h.cached.imported h.coherent hi hs⟩

theorem Complete.call (h : Complete pool w) (call : PoolCall f) :
    Complete pool (call.run pool w) := by
  rcases PoolCall.run_cases pool w call with hr | ⟨ord, marker, snapshot, clock, draft, hc, hi⟩
  · exact hr.invariant (fun _ _ he h => ⟨h.backed.effect he, h.canonical.effect he⟩) h
  · exact ⟨h.backed.imported hi, h.canonical.imported hi⟩

end Doradus
