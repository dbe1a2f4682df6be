import Doradus.Lib.AssocMap
import Doradus.Lib.Bytes
import Doradus.Types.DomainName
import Doradus.Lib.Fallible

/-!
# The FakeIP tables of the configuration store

`fakeip_entries` has the primary key `(family, prefix, domain)` and the unique
index `(family, prefix, ip)`; both are part of the type, so no sequence of
statements can break them. Blobs are ordered byte by byte, texts by code point.
Every access to the database may fail: `faults` lists, access by access, which
ones do and with what error; once it is used up no further access fails. A
write transaction that fails, by a fault or by its own statements, changes no
row.
-/

namespace Doradus

open Option AssocMap

inductive Family where
  | v4
  | v6
  deriving DecidableEq, Repr

namespace Family

def number : Family → Int64
  | .v4 => 4
  | .v6 => 6

def octetCount : Family → ℕ
  | .v4 => 4
  | .v6 => 16

def bits (f : Family) : ℕ := 8 * f.octetCount

theorem pow_octetCount (f : Family) : 256 ^ f.octetCount = 2 ^ f.bits := by
  rw [bits, pow_mul]
  norm_num

end Family

structure FakeIpScope where
  family : Int64
  poolPrefix : Text
  deriving DecidableEq, Repr

structure FakeIpKey extends FakeIpScope where
  domain : Text
  deriving DecidableEq, Repr

structure FakeIpRow where
  ip : List UInt8
  createdAt : Int64
  lastUsedAt : Int64
  deriving DecidableEq, Repr

structure FakeIpEntryRecord extends FakeIpKey, FakeIpRow where
  deriving DecidableEq, Repr

structure FakeIpCursorRow where
  cursorIp : List UInt8
  cursorIdx : Int64
  updatedAt : Int64
  deriving DecidableEq, Repr

structure FakeIpCursorRecord extends FakeIpScope, FakeIpCursorRow where
  deriving DecidableEq, Repr

def FakeIpScope.key (scope : FakeIpScope) (domain : Text) : FakeIpKey := ⟨scope, domain⟩

@[simp] theorem FakeIpScope.key_inj {s : FakeIpScope} {d d' : Text} :
    s.key d = s.key d' ↔ d = d' := by
  simp [key]

/-- `fakeip_entries` with both uniqueness constraints. -/
structure FakeIpEntries where
  rows : AssocMap FakeIpKey FakeIpRow
  reverse_unique : ∀ k k' r r', rows.get? k = some r → rows.get? k' = some r' →
    k.toFakeIpScope = k'.toFakeIpScope → r.ip = r'.ip → k = k'

namespace FakeIpEntries

def empty : FakeIpEntries := ⟨∅, by simp⟩

instance : Inhabited FakeIpEntries := ⟨empty⟩

/-- `DELETE … WHERE family = ? AND prefix = ? AND domain = ?`. -/
def deleteDomain (t : FakeIpEntries) (key : FakeIpKey) : FakeIpEntries where
  rows := t.rows.erase key
  reverse_unique := by
    intro k k' r r' h h'
    rw [AssocMap.get?_erase] at h h'
    split_ifs at h h'
    exact t.reverse_unique k k' r r' h h'

/-- `DELETE … WHERE family = ? AND prefix = ? AND ip = ?`. -/
def deleteIp (t : FakeIpEntries) (scope : FakeIpScope) (ip : List UInt8) : FakeIpEntries where
  rows := t.rows.retain fun k r => ¬(k.toFakeIpScope = scope ∧ r.ip = ip)
  reverse_unique := by
    intro k k' r r' h h'
    rw [AssocMap.get?_retain, Option.filter_eq_some_iff] at h h'
    exact t.reverse_unique k k' r r' h.1 h'.1

/-- `UPDATE … SET last_used_at = ? WHERE family = ? AND prefix = ? AND domain = ?`. -/
def touch (t : FakeIpEntries) (key : FakeIpKey) (timestamp : Int64) : FakeIpEntries where
  rows := t.rows.modify key fun r => { r with lastUsedAt := timestamp }
  reverse_unique := by
    have hip : ∀ k r, (t.rows.modify key fun r => { r with lastUsedAt := timestamp }).get? k =
        some r → ∃ r₀, t.rows.get? k = some r₀ ∧ r₀.ip = r.ip := by
      intro k r h
      rw [AssocMap.get?_modify] at h
      split_ifs at h with hk
      · obtain ⟨r₀, hr, rfl⟩ := Option.map_eq_some_iff.mp h
        exact ⟨r₀, hr, rfl⟩
      · exact ⟨r, h, rfl⟩
    intro k k' r r' h h' hs hr
    obtain ⟨r₀, h₀, he⟩ := hip k r h
    obtain ⟨r₁, h₁, he'⟩ := hip k' r' h'
    exact t.reverse_unique k k' r₀ r₁ h₀ h₁ hs (by rw [he, he', hr])

/-- A stored row stands in the way of inserting the record. -/
def Conflicts (t : FakeIpEntries) (entry : FakeIpEntryRecord) : Prop :=
  ∃ e ∈ t.rows.entries, e.1 = entry.toFakeIpKey ∨
    e.1.toFakeIpScope = entry.toFakeIpScope ∧ e.2.ip = entry.ip

instance (t : FakeIpEntries) (entry : FakeIpEntryRecord) : Decidable (t.Conflicts entry) :=
  inferInstanceAs (Decidable (∃ e ∈ t.rows.entries, _))

theorem unique_insert {rows : AssocMap FakeIpKey FakeIpRow} {en : FakeIpEntryRecord}
    (hu : ∀ k k' r r', rows.get? k = some r → rows.get? k' = some r' →
      k.toFakeIpScope = k'.toFakeIpScope → r.ip = r'.ip → k = k')
    (hc : ∀ k r, rows.get? k = some r → k.toFakeIpScope = en.toFakeIpScope →
      r.ip = en.ip → k = en.toFakeIpKey) :
    ∀ k k' r r', (rows.insert en.toFakeIpKey en.toFakeIpRow).get? k = some r →
      (rows.insert en.toFakeIpKey en.toFakeIpRow).get? k' = some r' →
      k.toFakeIpScope = k'.toFakeIpScope → r.ip = r'.ip → k = k' := by
  intro k k' r r' h h' hs hr
  rw [get?_insert] at h h'
  by_cases hk : k = en.toFakeIpKey
  · subst hk
    by_cases hk' : k' = en.toFakeIpKey
    · exact hk'.symm
    rw [if_pos rfl, some.injEq] at h
    rw [if_neg hk'] at h'
    subst h
    exact (hc k' r' h' hs.symm hr.symm).symm
  · rw [if_neg hk] at h
    by_cases hk' : k' = en.toFakeIpKey
    · subst hk'
      rw [if_pos rfl, some.injEq] at h'
      subst h'
      exact hc k r h hs hr
    · rw [if_neg hk'] at h'
      exact hu k k' r r' h h' hs hr

/-- `INSERT`: refused when a uniqueness constraint would break. -/
def insert (t : FakeIpEntries) (entry : FakeIpEntryRecord) : Result FakeIpEntries :=
  if h : t.Conflicts entry then
    .error ⟨.storage, "UNIQUE constraint failed: fakeip_entries"⟩
  else .ok
    { rows := t.rows.insert entry.toFakeIpKey entry.toFakeIpRow
      reverse_unique := unique_insert t.reverse_unique fun k r hr hs hip =>
        absurd ⟨(k, r), (t.rows.get?_eq_some_iff k r).mp hr, Or.inr ⟨hs, hip⟩⟩ h }

/-- `INSERT OR REPLACE`: every row in the way is deleted first. -/
def insertOrReplace (t : FakeIpEntries) (entry : FakeIpEntryRecord) : FakeIpEntries where
  rows := (t.deleteIp entry.toFakeIpScope entry.ip).rows.insert entry.toFakeIpKey entry.toFakeIpRow
  reverse_unique := by
    apply unique_insert (t.deleteIp entry.toFakeIpScope entry.ip).reverse_unique
    intro k r h hs hip
    rw [deleteIp, AssocMap.get?_retain, Option.filter_eq_some_iff] at h
    simp [hs, hip] at h

section

variable (t : FakeIpEntries)
include t

theorem get?_deleteDomain (key k : FakeIpKey) :
    (t.deleteDomain key).rows.get? k = if k = key then none else t.rows.get? k :=
  get?_erase _ _ _

theorem get?_deleteIp (s : FakeIpScope) (ip : List UInt8) (k : FakeIpKey)
    (r : FakeIpRow) : (t.deleteIp s ip).rows.get? k = some r ↔
      t.rows.get? k = some r ∧ ¬(k.toFakeIpScope = s ∧ r.ip = ip) := by
  rw [deleteIp, get?_retain, filter_eq_some_iff, decide_eq_true_eq]

theorem get?_touch (key k : FakeIpKey) (tm : Int64) : (t.touch key tm).rows.get? k =
      if k = key then (t.rows.get? k).map fun r => { r with lastUsedAt := tm } else t.rows.get? k :=
  get?_modify _ _ _ _

theorem get?_insertOrReplace (en : FakeIpEntryRecord) (k : FakeIpKey)
    (r : FakeIpRow) : (t.insertOrReplace en).rows.get? k = some r ↔
      (k = en.toFakeIpKey ∧ r = en.toFakeIpRow) ∨ (k ≠ en.toFakeIpKey ∧
        t.rows.get? k = some r ∧ ¬(k.toFakeIpScope = en.toFakeIpScope ∧ r.ip = en.ip)) := by
  rw [insertOrReplace, get?_insert]
  by_cases hk : k = en.toFakeIpKey
  · simp [hk, eq_comm]
  · rw [if_neg hk, get?_deleteIp]
    simp [hk]

end

def list (t : FakeIpEntries) (scope : FakeIpScope) : List FakeIpEntryRecord :=
  ((t.rows.entries.filter fun e => e.1.toFakeIpScope = scope).map
    fun e => (⟨e.1, e.2⟩ : FakeIpEntryRecord)).insertionSort
      fun a b => a.ip < b.ip ∨ a.ip = b.ip ∧ ¬ b.domain < a.domain

/-- The records of the family under other prefixes within an address range, by
address, prefix and domain. -/
def listInRange (t : FakeIpEntries) (scope : FakeIpScope) (octetCount : ℕ)
    (startIp endIp : List UInt8) : List FakeIpEntryRecord :=
  ((t.rows.entries.filter fun e => e.1.family = scope.family ∧ e.1.poolPrefix ≠ scope.poolPrefix ∧
      e.2.ip.length = octetCount ∧ ¬ e.2.ip < startIp ∧ ¬ endIp < e.2.ip).map
    fun e => (⟨e.1, e.2⟩ : FakeIpEntryRecord)).insertionSort
      fun a b => a.ip < b.ip ∨ a.ip = b.ip ∧
        (a.poolPrefix < b.poolPrefix ∨ a.poolPrefix = b.poolPrefix ∧ ¬ b.domain < a.domain)

theorem mem_list (t : FakeIpEntries) (scope : FakeIpScope) (e : FakeIpEntryRecord) :
    e ∈ t.list scope ↔ t.rows.get? e.toFakeIpKey = some e.toFakeIpRow ∧
      e.toFakeIpScope = scope := by
  rw [list, List.mem_insertionSort, List.mem_map]
  constructor
  · rintro ⟨x, hx, rfl⟩
    rw [List.mem_filter, decide_eq_true_eq] at hx
    exact ⟨(t.rows.get?_eq_some_iff _ _).mpr hx.1, hx.2⟩
  · rintro ⟨hr, hs⟩
    refine ⟨(e.toFakeIpKey, e.toFakeIpRow), ?_, rfl⟩
    rw [List.mem_filter, decide_eq_true_eq]
    exact ⟨(t.rows.get?_eq_some_iff _ _).mp hr, hs⟩

end FakeIpEntries

open List FakeIpEntries

structure Tables where
  entries : FakeIpEntries
  cursors : AssocMap FakeIpScope FakeIpCursorRow
  config : AssocMap Text (List UInt8)

structure ConfigStore where
  tables : Tables
  faults : List (Option Error)

abbrev StoreM (α : Type) := Fallible Error ConfigStore α

namespace ConfigStore

def withConnection {α : Type} (query : Tables → Result α) : StoreM α := fun store =>
  match store.faults with
  | some e :: faults => (.error e, { store with faults := faults })
  | none :: faults => (query store.tables, { store with faults := faults })
  | [] => (query store.tables, store)

/-- `BEGIN IMMEDIATE` up to `COMMIT`, or `ROLLBACK` on an error. -/
def commit {α : Type} (store : ConfigStore) (operation : Tables → Result (α × Tables)) :
    Result α × ConfigStore :=
  match operation store.tables with
  | .ok (a, tables) => (.ok a, { store with tables := tables })
  | .error e => (.error e, store)

def withWriteTransaction {α : Type} (operation : Tables → Result (α × Tables)) : StoreM α :=
  fun store =>
    match store.faults with
    | some e :: faults => (.error e, { store with faults := faults })
    | none :: faults => commit { store with faults := faults } operation
    | [] => commit store operation

end ConfigStore

def validateKey (key : Text) : Result Unit :=
  if key = [] ∨ 512 < Text.byteLen key ∨ key.any Text.isControl then
    .error (.invalid "config key must be 1..=512 non-control characters")
  else .ok ()

def validateId (value : Text) : Result Unit :=
  if value = [] ∨ 512 < Text.byteLen value ∨ value.any Text.isControl then
    .error (.invalid "typed store identifier must be 1..=512 non-control characters")
  else .ok ()

theorem validateId_text (d : DomainName) : validateId d.text = .ok () := by
  unfold validateId
  rw [if_neg]
  rintro (hn | hb | hc)
  · exact d.canonical.ne_nil hn
  · exact absurd d.canonical.byteLen_le (by omega)
  · obtain ⟨c, hmem, hc⟩ := any_eq_true.mp hc
    rw [d.canonical.not_control hmem] at hc
    cases hc

def validateFakeipScope (scope : FakeIpScope) : Result Unit :=
  if scope.family ≠ 4 ∧ scope.family ≠ 6 then .error (.invalid "FakeIP family must be 4 or 6")
  else validateId scope.poolPrefix

def validateFakeipEntry (entry : FakeIpEntryRecord) : Result Unit := do
  validateFakeipScope entry.toFakeIpScope
  validateId entry.domain
  if entry.ip.length ≠ (if entry.family = 4 then 4 else 16) then
    .error (.invalid "FakeIP entry has an invalid IP length")
  else if entry.createdAt < 0 ∨ entry.lastUsedAt < 0 then
    .error (.invalid "FakeIP entry timestamps must not be negative")
  else .ok ()

def validateFakeipCursor (cursor : FakeIpCursorRecord) : Result Unit := do
  validateFakeipScope cursor.toFakeIpScope
  if cursor.cursorIp.length ≠ (if cursor.family = 4 then 4 else 16) then
    .error (.invalid "FakeIP cursor has an invalid IP length")
  else if cursor.cursorIdx < 0 ∨ cursor.updatedAt < 0 then
    .error (.invalid "FakeIP cursor values must not be negative")
  else .ok ()

/-- The checks of a loop stop at the first element that fails. -/
def validateAll {α : Type} (check : α → Result Unit) : List α → Result Unit
  | [] => .ok ()
  | a :: l => do
    check a
    validateAll check l

theorem validateAll_eq_ok {α : Type} (c : α → Result Unit) (l : List α) :
    validateAll c l = .ok () ↔ ∀ a ∈ l, c a = .ok () := by
  induction l with
  | nil => simp [validateAll]
  | cons _ _ ih =>
    rw [validateAll, Result.bind_eq_ok, forall_mem_cons, ← ih]
    constructor
    · intro h
      obtain ⟨_, ha, hl⟩ := h
      exact ⟨ha, hl⟩
    · intro h
      exact ⟨(), h.1, h.2⟩

namespace Tables

/-- Delete the rows of the given domains, counting the rows that were there. -/
def deleteDomains (t : Tables) (scope : FakeIpScope) (domains : List Text) : ℕ × Tables :=
  domains.foldl (fun acc domain =>
    (acc.1 + (if acc.2.entries.rows.contains (scope.key domain) then 1 else 0),
      { acc.2 with entries := acc.2.entries.deleteDomain (scope.key domain) })) (0, t)

/-- Write the timestamps of the given domains, counting the rows that were there. -/
def touchDomains (t : Tables) (scope : FakeIpScope) (touches : List (Text × Int64)) : ℕ × Tables :=
  touches.foldl (fun acc touch =>
    (acc.1 + (if acc.2.entries.rows.contains (scope.key touch.1) then 1 else 0),
      { acc.2 with entries := acc.2.entries.touch (scope.key touch.1) touch.2 })) (0, t)

def putCursor (t : Tables) (cursor : FakeIpCursorRecord) : Tables :=
  { t with cursors := t.cursors.insert cursor.toFakeIpScope cursor.toFakeIpCursorRow }

def replaceEntry (t : Tables) (entry : FakeIpEntryRecord) (cursor : FakeIpCursorRecord)
    (evictedDomain : Option Text) : Result (Unit × Tables) := do
  let own := t.entries.deleteDomain entry.toFakeIpKey
  let evicted := match evictedDomain with
    | some domain => own.deleteDomain (entry.toFakeIpScope.key domain)
    | none => own
  let free := evicted.deleteIp entry.toFakeIpScope entry.ip
  let entries ← free.insert entry
  pure ((), { t with entries := entries }.putCursor cursor)

def insertEntries (t : Tables) (entries : List FakeIpEntryRecord) : Tables :=
  { t with entries := entries.foldl FakeIpEntries.insertOrReplace t.entries }

def deleteKeys (t : Tables) (keys : List Text) : Tables :=
  { t with config := keys.foldl AssocMap.erase t.config }

def importState (t : Tables) (entries : List FakeIpEntryRecord) (cursor : FakeIpCursorRecord)
    (legacyKeys : List Text) (markerKey : Option Text) (skipIfMarked : Bool) : Bool × Tables :=
  if skipIfMarked = true ∧ (markerKey.bind t.config.get?).isSome then (false, t)
  else
    let t := ((t.insertEntries entries).putCursor cursor).deleteKeys legacyKeys
    (true, match markerKey with
      | some key => { t with config := t.config.insert key [49] }
      | none => t)

/-- `key LIKE 'path%'`; `LIKE` ignores the case of ASCII letters, and no path
the pools use has a wildcard of its own. -/
def likePath (path key : Text) : Bool := Text.eqIgnoreAsciiCase (key.take path.length) path

def listKeys (t : Tables) (path : Text) : List (Text × List UInt8) :=
  (t.config.entries.filter fun e => likePath path e.1).insertionSort fun a b => ¬ b.1 < a.1

variable (t : Tables) (scope : FakeIpScope)

theorem get?_deleteDomains (dm : List Text) (k : FakeIpKey) :
    (t.deleteDomains scope dm).2.entries.rows.get? k =
      if k ∈ dm.map scope.key then none else t.entries.rows.get? k := by
  have hf : ∀ (dm : List Text) (acc : ℕ × Tables), (dm.foldl (fun acc dmn =>
        (acc.1 + (if acc.2.entries.rows.contains (scope.key dmn) then 1 else 0),
          { acc.2 with entries := acc.2.entries.deleteDomain (scope.key dmn) }))
      acc).2.entries.rows.get? k
        = if k ∈ dm.map scope.key then none else acc.2.entries.rows.get? k := by
    intro dm
    induction dm with
    | nil => simp
    | cons d dm ih =>
      intro acc
      rw [foldl_cons, ih, get?_deleteDomain]
      by_cases hmem : k ∈ dm.map scope.key
      · simp [hmem]
      · by_cases hk : k = scope.key d <;> simp [hmem, hk]
  exact hf dm (0, t)

theorem touchDomains_cons (tc : Text × Int64) (ts : List (Text × Int64)) :
    (t.touchDomains scope (tc :: ts)).2 =
      (Tables.touchDomains { t with entries := t.entries.touch (scope.key tc.1) tc.2 } scope
        ts).2 := by
  have hf : ∀ (ts : List (Text × Int64)) (n n' : ℕ) (t : Tables), (ts.foldl (fun acc tc =>
        (acc.1 + (if acc.2.entries.rows.contains (scope.key tc.1) then 1 else 0),
          { acc.2 with entries := acc.2.entries.touch (scope.key tc.1) tc.2 })) (n, t)).2 =
      (ts.foldl (fun acc tc =>
        (acc.1 + (if acc.2.entries.rows.contains (scope.key tc.1) then 1 else 0),
          { acc.2 with entries := acc.2.entries.touch (scope.key tc.1) tc.2 })) (n', t)).2 := by
    intro ts
    induction ts with
    | nil => exact fun _ _ _ => rfl
    | cons _ _ ih => exact fun _ _ _ => ih _ _ _
  exact hf ts _ _ _

variable {tc : List (Text × Int64)} {d : Text}

theorem get?_touchDomains_of_notMem (h : d ∉ tc.map Prod.fst) :
    (t.touchDomains scope tc).2.entries.rows.get? (scope.key d) =
      t.entries.rows.get? (scope.key d) := by
  induction tc generalizing t with
  | nil => rfl
  | cons _ _ ih =>
    rw [map_cons, mem_cons, not_or] at h
    rw [touchDomains_cons, ih _ h.2, get?_touch, if_neg]
    simpa using h.1

theorem get?_touchDomains_of_mem {tm : Int64} (hn : (tc.map Prod.fst).Nodup) (h : (d, tm) ∈ tc) :
    (t.touchDomains scope tc).2.entries.rows.get? (scope.key d) =
      (t.entries.rows.get? (scope.key d)).map fun r => { r with lastUsedAt := tm } := by
  induction tc generalizing t with
  | nil => cases h
  | cons tch _ ih =>
    rw [map_cons, nodup_cons] at hn
    rw [touchDomains_cons]
    rcases mem_cons.mp h with rfl | hmem
    · rw [get?_touchDomains_of_notMem _ _ hn.1, get?_touch, if_pos rfl]
    have hne : d ≠ tch.1 := by
      rintro rfl
      exact hn.1 (mem_map.mpr ⟨_, hmem, rfl⟩)
    rw [ih _ hn.2 hmem, get?_touch, if_neg (by simpa using hne)]

theorem get?_touchDomains_ip {k : FakeIpKey} {r : FakeIpRow}
    (h : (t.touchDomains scope tc).2.entries.rows.get? k = some r) :
    ∃ r₀, t.entries.rows.get? k = some r₀ ∧ r₀.ip = r.ip := by
  induction tc generalizing t with
  | nil => exact ⟨r, h, rfl⟩
  | cons _ _ ih =>
    rw [touchDomains_cons] at h
    obtain ⟨r₁, hr₁, hip⟩ := ih _ h
    rw [get?_touch] at hr₁
    split_ifs at hr₁
    · obtain ⟨r₀, hr₀, rfl⟩ := Option.map_eq_some_iff.mp hr₁
      exact ⟨r₀, hr₀, hip⟩
    · exact ⟨r₁, hr₁, hip⟩

theorem get?_replaceEntry {t t' : Tables} {en : FakeIpEntryRecord} {c : FakeIpCursorRecord}
    {ev : Option Text} (h : t.replaceEntry en c ev = .ok ((), t')) (k : FakeIpKey) (r : FakeIpRow) :
    t'.entries.rows.get? k = some r ↔
      (k = en.toFakeIpKey ∧ r = en.toFakeIpRow) ∨ (k ≠ en.toFakeIpKey ∧
        (∀ d ∈ ev, k ≠ en.toFakeIpScope.key d) ∧
        t.entries.rows.get? k = some r ∧ ¬(k.toFakeIpScope = en.toFakeIpScope ∧ r.ip = en.ip)) := by
  obtain ⟨ent, hi, ht⟩ := Result.bind_eq_ok.mp h
  cases ht
  unfold FakeIpEntries.insert at hi
  split_ifs at hi
  cases hi
  change (AssocMap.insert _ _ _).get? k = some r ↔ _
  rw [AssocMap.get?_insert]
  by_cases hk : k = en.toFakeIpKey
  · simp [hk, eq_comm]
  rw [if_neg hk, get?_deleteIp]
  cases ev with
  | none => simp [get?_deleteDomain, hk]
  | some d =>
    by_cases he : k = en.toFakeIpScope.key d
    · rw [he] at hk
      simp [get?_deleteDomain, he, hk]
    · simp [get?_deleteDomain, hk, he]

end Tables

namespace ConfigStore

def listFakeipEntries (scope : FakeIpScope) : StoreM (List FakeIpEntryRecord) := do
  Fallible.ofExcept (validateFakeipScope scope)
  withConnection fun t => .ok (t.entries.list scope)

def listFakeipEntriesInRange (scope : FakeIpScope) (startIp endIp : List UInt8) :
    StoreM (List FakeIpEntryRecord) := do
  Fallible.ofExcept (validateFakeipScope scope)
  let expectedLen := if scope.family = 4 then 4 else 16
  if startIp.length ≠ expectedLen ∨ endIp.length ≠ expectedLen ∨ endIp < startIp then
    Fallible.throw (.invalid "invalid FakeIP address range")
  else withConnection fun t => .ok (t.entries.listInRange scope expectedLen startIp endIp)

def getFakeipCursor (scope : FakeIpScope) : StoreM (Option FakeIpCursorRow) := do
  Fallible.ofExcept (validateFakeipScope scope)
  withConnection fun t => .ok (t.cursors.get? scope)

def replaceFakeipEntry (entry : FakeIpEntryRecord) (cursor : FakeIpCursorRecord)
    (evictedDomain : Option Text) : StoreM Unit := do
  Fallible.ofExcept (validateFakeipEntry entry)
  Fallible.ofExcept (validateFakeipCursor cursor)
  if entry.toFakeIpScope ≠ cursor.toFakeIpScope then
    Fallible.throw (.invalid "FakeIP entry and cursor must use the same scope")
  else
    Fallible.ofExcept (validateAll validateId evictedDomain.toList)
    withWriteTransaction fun t => t.replaceEntry entry cursor evictedDomain

def deleteFakeipEntries (scope : FakeIpScope) (domains : List Text) : StoreM ℕ := do
  Fallible.ofExcept (validateFakeipScope scope)
  Fallible.ofExcept (validateAll validateId domains)
  if domains = [] then pure 0
  else withWriteTransaction fun t => .ok (t.deleteDomains scope domains)

def validateTouch (touch : Text × Int64) : Result Unit := do
  validateId touch.1
  if touch.2 < 0 then .error (.invalid "FakeIP last_used_at must not be negative") else .ok ()

def touchFakeipEntries (scope : FakeIpScope) (touches : List (Text × Int64)) : StoreM ℕ := do
  Fallible.ofExcept (validateFakeipScope scope)
  Fallible.ofExcept (validateAll validateTouch touches)
  if touches = [] then pure 0
  else withWriteTransaction fun t => .ok (t.touchDomains scope touches)

def importFakeipStateInner (entries : List FakeIpEntryRecord) (cursor : FakeIpCursorRecord)
    (legacyKeys : List Text) (markerKey : Option Text) (skipIfMarked : Bool) : StoreM Bool := do
  Fallible.ofExcept (validateFakeipCursor cursor)
  Fallible.ofExcept (validateAll (fun entry => do
    validateFakeipEntry entry
    if entry.toFakeIpScope ≠ cursor.toFakeIpScope then
      .error (.invalid "legacy FakeIP entries and cursor must use the same scope")
    else .ok ()) entries)
  Fallible.ofExcept (validateAll validateKey legacyKeys)
  Fallible.ofExcept (validateAll validateKey markerKey.toList)
  withWriteTransaction fun t => .ok (t.importState entries cursor legacyKeys markerKey skipIfMarked)

def importFakeipState (entries : List FakeIpEntryRecord) (cursor : FakeIpCursorRecord)
    (legacyKeys : List Text) (markerKey : Option Text) : StoreM Unit := do
  let _ ← importFakeipStateInner entries cursor legacyKeys markerKey false
  pure ()

def importFakeipStateIfUnmarked (entries : List FakeIpEntryRecord) (cursor : FakeIpCursorRecord)
    (legacyKeys : List Text) (markerKey : Text) : StoreM Bool :=
  importFakeipStateInner entries cursor legacyKeys (some markerKey) true

def getConfig (key : Text) : StoreM (Option (List UInt8)) := do
  Fallible.ofExcept (validateKey key)
  withConnection fun t => .ok (t.config.get? key)

def listConfig (path : Text) : StoreM (List (Text × List UInt8)) := do
  Fallible.ofExcept (if path = [] then .ok () else validateKey path)
  withConnection fun t => .ok (t.listKeys path)

section

open Fallible (Triple)

variable {α : Type} {t : Tables}

theorem withConnection_triple (q : Tables → Result α) :
    Triple (fun s => s.tables = t) (withConnection q)
      (fun a s => s.tables = t ∧ q t = .ok a) (fun s => s.tables = t) := by
  intro s hs
  subst hs
  unfold withConnection
  rcases s with ⟨tb, _ | ⟨_ | e, f⟩⟩
  · cases q tb <;> simp
  · cases q tb <;> simp
  · rfl

theorem withWriteTransaction_triple (o : Tables → Result (α × Tables)) :
    Triple (fun s => s.tables = t) (withWriteTransaction o)
      (fun a s => o t = .ok (a, s.tables)) (fun s => s.tables = t) := by
  have hc : ∀ st : ConfigStore, Triple (fun s => s = st) (fun s => commit s o)
      (fun a s => o st.tables = .ok (a, s.tables)) (fun s => s.tables = st.tables) := by
    intro st s hs
    subst hs
    dsimp only [commit]
    cases ho : o s.tables with
    | ok | error => simp
  intro s hs
  subst hs
  rcases s with ⟨tb, _ | ⟨_ | e, f⟩⟩
  · exact hc ⟨tb, []⟩ _ rfl
  · exact hc ⟨tb, f⟩ _ rfl
  · rfl

theorem read_triple (c : Result Unit) (q : Tables → α) : Triple (fun s => s.tables = t)
      (do Fallible.ofExcept c; withConnection fun t => .ok (q t) : StoreM α)
      (fun a s => s.tables = t ∧ a = q t) (fun s => s.tables = t) := by
  refine Triple.check fun _ => ?_
  apply (withConnection_triple _).conseq (fun _ h => h) _ (fun _ h => h)
  intro a s hs
  exact ⟨hs.1, (Except.ok.inj hs.2).symm⟩

theorem write_triple {β : Type} [DecidableEq β] (c c' : Result Unit) (it : List β)
    (w : Tables → ℕ × Tables) (hnil : it = [] → ∀ t, (w t).2 = t) :
    Triple (fun s => s.tables = t) (do
        Fallible.ofExcept c
        Fallible.ofExcept c'
        if it = [] then pure 0 else withWriteTransaction fun t => .ok (w t) : StoreM ℕ)
      (fun _ s => s.tables = (w t).2) (fun s => s.tables = t) := by
  refine Triple.check fun _ => ?_
  refine Triple.check fun _ => ?_
  by_cases hd : it = []
  · rw [if_pos hd]
    apply Triple.pure
    intro s hs
    rw [hs, hnil hd]
  rw [if_neg hd]
  apply (withWriteTransaction_triple _).conseq (fun _ h => h) _ (fun _ h => h)
  intro n s hs
  rw [Except.ok.injEq] at hs
  rw [hs]

theorem listFakeipEntriesInRange_triple (sc : FakeIpScope) (st en : List UInt8) :
    Triple (fun s => s.tables = t) (listFakeipEntriesInRange sc st en)
      (fun rows s => s.tables = t ∧ rows = t.entries.listInRange sc
        (if sc.family = 4 then 4 else 16) st en) (fun s => s.tables = t) := by
  unfold listFakeipEntriesInRange
  generalize (if sc.family = 4 then 4 else 16) = expectedLen
  by_cases hr : st.length ≠ expectedLen ∨ en.length ≠ expectedLen ∨ en < st
  · simp only [if_pos hr]
    refine Triple.check fun _ => ?_
    exact Triple.throw fun _ h => h
  · simp only [if_neg hr]
    exact read_triple _ _

theorem listConfig_triple (path : Text) : Triple (fun s => s.tables = t) (listConfig path)
      (fun p s => s.tables = t ∧ p = t.listKeys path) (fun s => s.tables = t) :=
  read_triple _ _

theorem deleteFakeipEntries_triple (sc : FakeIpScope) (d : List Text) :
    Triple (fun s => s.tables = t) (deleteFakeipEntries sc d)
      (fun _ s => s.tables = (t.deleteDomains sc d).2) (fun s => s.tables = t) := by
  apply write_triple
  intro h t
  rw [h]
  rfl

theorem touchFakeipEntries_triple (sc : FakeIpScope) (tc : List (Text × Int64)) :
    Triple (fun s => s.tables = t) (touchFakeipEntries sc tc)
      (fun _ s => s.tables = (t.touchDomains sc tc).2) (fun s => s.tables = t) := by
  apply write_triple
  intro h t
  rw [h]
  rfl

theorem replaceFakeipEntry_triple (en : FakeIpEntryRecord) (c : FakeIpCursorRecord)
    (ev : Option Text) :
    Triple (fun s => s.tables = t) (replaceFakeipEntry en c ev)
      (fun _ s => t.replaceEntry en c ev = .ok ((), s.tables)) (fun s => s.tables = t) := by
  refine Triple.check fun _ => ?_
  refine Triple.check fun _ => ?_
  by_cases hs : en.toFakeIpScope ≠ c.toFakeIpScope
  · rw [if_pos hs]
    exact Triple.throw fun _ h => h
  · rw [if_neg hs]
    refine Triple.check fun _ => ?_
    exact withWriteTransaction_triple _

theorem importFakeipStateInner_triple (en : List FakeIpEntryRecord)
    (c : FakeIpCursorRecord) (l : List Text) (m : Option Text) (sk : Bool) :
    Triple (fun s => s.tables = t) (importFakeipStateInner en c l m sk)
      (fun b s => (b, s.tables) = t.importState en c l m sk) (fun s => s.tables = t) := by
  refine Triple.check fun _ => ?_
  refine Triple.check fun _ => ?_
  refine Triple.check fun _ => ?_
  refine Triple.check fun _ => ?_
  apply (withWriteTransaction_triple _).conseq (fun _ h => h) _ (fun _ h => h)
  intro b s hs
  rw [Except.ok.injEq] at hs
  exact hs.symm

end

open Fallible (Triple)

variable {α : Type} {t : Tables}

def Healthy (t : Tables) (s : ConfigStore) : Prop := s.tables = t ∧ s.faults = []

theorem read_healthy {c : Result Unit} (hc : c = .ok ()) (q : Tables → α) :
    Triple (Healthy t) (do Fallible.ofExcept c; withConnection fun t => .ok (q t) : StoreM α)
      (fun a s => Healthy t s ∧ a = q t) (fun _ => False) := by
  intro s hs
  subst hc
  obtain ⟨tb, f⟩ := s
  obtain ⟨rfl, rfl⟩ := hs
  exact ⟨⟨rfl, rfl⟩, rfl⟩

theorem deleteFakeipEntries_healthy {sc : FakeIpScope} {d : List Text}
    (hsc : validateFakeipScope sc = .ok ()) (hdm : ∀ dm ∈ d, validateId dm = .ok ()) :
    Triple (Healthy t) (deleteFakeipEntries sc d)
      (fun _ s => Healthy (t.deleteDomains sc d).2 s) (fun _ => False) := by
  intro s hs
  obtain ⟨tb, f⟩ := s
  obtain ⟨rfl, rfl⟩ := hs
  unfold deleteFakeipEntries
  rw [hsc, (validateAll_eq_ok _ _).mpr hdm]
  by_cases hd : d = []
  · subst hd
    exact ⟨rfl, rfl⟩
  · simp only [if_neg hd]
    exact ⟨rfl, rfl⟩

end ConfigStore

end Doradus
