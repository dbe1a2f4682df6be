import Doradus.Store.FakeIpPool

/-!
# Opening a FakeIP pool

`open_with_prefix` reads the rows of its scope, or the legacy keys when there
are none, drops what has expired, trims to the capacity and writes back what it
took from the legacy keys.
-/

namespace Doradus

open ConfigStore

def Family.nextKey : Family → Text
  | .v4 => "fakeip/next".toList
  | .v6 => "fakeip/ipv6/next".toList

def Family.mapPath : Family → Text
  | .v4 => "fakeip/map/".toList
  | .v6 => "fakeip/ipv6/map/".toList

def stripPath (path key : Text) : Option Text :=
  if path.isPrefixOf key then some (key.drop path.length) else none

namespace FakeIpOpen

variable {f : Family}

/-- The domain and the address of one legacy key, unless it is skipped. -/
def legacyMapping? (config : FakeIpConfig f) (key : Text) (value : List UInt8) :
    Option (DomainName × Address f) :=
  match Address.ofOctets? f value, (stripPath f.mapPath key).map DomainName.new with
  | some address, some (.ok domain) =>
    if config.Contains address then some (domain, address) else none
  | _, _ => none

/-- The records made from the legacy keys: the first key of every address. -/
def legacyRecords (config : FakeIpConfig f) (scope : FakeIpScope) (now : UnixTime)
    (pairs : List (Text × List UInt8)) : List FakeIpEntryRecord :=
  let found := pairs.foldl (fun found pair =>
    match legacyMapping? config pair.1 pair.2 with
    | some (domain, address) =>
      if (found.map Prod.snd).contains address then found else found ++ [(domain, address)]
    | none => found) ([] : List (DomainName × Address f))
  found.map fun e =>
    { toFakeIpKey := scope.key e.1.text
      ip := e.2.octets
      createdAt := now.1
      lastUsedAt := now.1 }

def loadLegacy (config : FakeIpConfig f) (scope : FakeIpScope) (now : UnixTime) :
    StoreM (List FakeIpEntryRecord) := do
  let pairs ← ConfigStore.listConfig f.mapPath
  pure (legacyRecords config scope now pairs)

def loadLegacyKeys (path : Text) : StoreM (List Text) := do
  let pairs ← ConfigStore.listConfig path
  pure (pairs.map Prod.fst)

/-- The addresses that live rows of other prefixes hold. Of several rows of one
address the last one read counts. -/
def reservedOf (rows : List FakeIpEntryRecord) (now ttlSeconds : Int64) :
    AssocMap (Address f) Int64 :=
  (rows.filter fun e => !expiredAt e.lastUsedAt now ttlSeconds).foldl (fun reserved e =>
    match Address.ofOctets? f e.ip with
    | some address => reserved.insert address e.lastUsedAt
    | none => reserved) ∅

/-- One round of the loop that restores the rows, with the domains found
expired so far. -/
def restoreEntry (config : FakeIpConfig f) (scope : FakeIpScope) (now ttlSeconds : Int64)
    (acc : PoolState f × List Text) (entry : FakeIpEntryRecord) : PoolState f × List Text :=
  match Address.ofOctets? f entry.ip, DomainName.new entry.domain with
  | some address, .ok domain =>
    if entry.toFakeIpScope ≠ scope ∨ ¬ config.Contains address ∨
        acc.1.reserved.contains address = true ∨ acc.1.reverse.contains address = true ∨
        acc.1.forward.contains domain = true then acc
    else if expiredAt entry.lastUsedAt now ttlSeconds then (acc.1, acc.2 ++ [entry.domain])
    else (acc.1.record domain ⟨address, entry.createdAt, entry.lastUsedAt, entry.lastUsedAt⟩, acc.2)
  | _, _ => acc

/-- The domains that exceed the capacity, least recently used first. -/
def trimDomains (ord : AssocMap.IterOrder) (s : PoolState f) (maxEntries : ℕ) : List DomainName :=
  (((ord s.forward.entries).insertionSort fun a b => ¬ b.2.lastUsedAt < a.2.lastUsedAt).take
    (s.forward.size - maxEntries)).map Prod.fst

/-- The checks made before the store is read; the result is the size of the
range. -/
def validateOpen (config : FakeIpConfig f) (poolPrefix : Text) (options : FakeIpPoolOptions) :
    Result ℕ := do
  let size ← config.size
  if options.maxEntries = 0 ∨ size < options.maxEntries then
    .error (.invalid ("FakeIP max_entries must fit inside the configured " ++ f.tag ++ "pool"))
  else if options.ttlSeconds ≤ 0 ∨ options.touchIntervalSeconds ≤ 0 then
    .error (.invalid "FakeIP time options must be positive")
  else if validateId poolPrefix = .ok () then .ok size
  else .error (.invalid "invalid FakeIP pool prefix")

theorem validateOpen_eq_ok {c : FakeIpConfig f} {p : Text} {o : FakeIpPoolOptions} {size : ℕ} :
    validateOpen c p o = .ok size ↔ c.size = .ok size ∧ 0 < o.maxEntries ∧ o.maxEntries ≤ size ∧
        0 < o.ttlSeconds ∧ 0 < o.touchIntervalSeconds ∧ validateId p = .ok () := by
  rw [validateOpen, Result.bind_eq_ok, ← Int64.not_le, ← Int64.not_le]
  constructor
  · intro h
    obtain ⟨n, hn, h⟩ := h
    split_ifs at h with hm ht hp
    cases h
    exact ⟨hn, by omega, by omega, fun h => ht (.inl h), fun h => ht (.inr h), hp⟩
  · intro h
    obtain ⟨hs, hpos, hle, httl, htc, hp⟩ := h
    refine ⟨size, hs, ?_⟩
    rw [if_neg (by omega), if_neg (not_or.mpr ⟨httl, htc⟩), if_pos hp]

/-- The cursor to start from: the stored one, else the legacy one, else the
start of the range. -/
def initialNext (config : FakeIpConfig f) (typedCursor : Option FakeIpCursorRow)
    (legacyCursor : Option (Address f)) : Address f :=
  config.normalizeNext (((typedCursor.bind fun c => Address.ofOctets? f c.cursorIp).or
    legacyCursor).getD config.start)

/-- What the reads of `open_with_prefix` return: the rows to restore, the
reserved addresses, the cursor, and whether the scope had no rows. -/
structure Loaded (f : Family) where
  source : List FakeIpEntryRecord
  reserved : AssocMap (Address f) Int64
  next : Address f
  typedAbsent : Bool

def load (config : FakeIpConfig f) (scope : FakeIpScope) (options : FakeIpPoolOptions)
    (now : UnixTime) : StoreM (Loaded f) := do
  let typed ← ConfigStore.listFakeipEntries scope
  let others ← ConfigStore.listFakeipEntriesInRange scope config.start.octets config.stop.octets
  let typedCursor ← ConfigStore.getFakeipCursor scope
  let reserved := reservedOf others now.1 options.ttlSeconds
  if typed = [] then do
    let legacy ← loadLegacy config scope now
    let value ← ConfigStore.getConfig f.nextKey
    pure ⟨legacy, reserved, initialNext config typedCursor (value.bind (Address.ofOctets? f)), true⟩
  else
    pure ⟨typed, reserved, initialNext config typedCursor none, false⟩

def restore (config : FakeIpConfig f) (scope : FakeIpScope) (options : FakeIpPoolOptions)
    (now : UnixTime) (loaded : Loaded f) : PoolState f × List Text :=
  loaded.source.foldl (restoreEntry config scope now.1 options.ttlSeconds)
    (⟨loaded.next, ∅, ∅, loaded.reserved⟩, [])

def deleteExpired (scope : FakeIpScope) (expired : List Text) : StoreM Unit :=
  if expired = [] then pure ()
  else do
    let _ ← ConfigStore.deleteFakeipEntries scope expired
    pure ()

def trim (ord : AssocMap.IterOrder) (scope : FakeIpScope) (options : FakeIpPoolOptions)
    (s : PoolState f) : StoreM (PoolState f) :=
  if s.forward.size - options.maxEntries = 0 then pure s
  else do
    let domains := trimDomains ord s options.maxEntries
    let _ ← ConfigStore.deleteFakeipEntries scope (domains.map DomainName.text)
    pure (s.forgetAll domains)

def writtenEntries (ord : AssocMap.IterOrder) (pool : FakeIpPool f) (s : PoolState f) :
    List FakeIpEntryRecord :=
  (ord s.forward.entries).map fun e => pool.entryRecord e.1 e.2.address e.2.createdAt e.2.lastUsedAt

def writeBack (ord : AssocMap.IterOrder) (pool : FakeIpPool f) (s : PoolState f)
    (now : UnixTime) : StoreM Unit := do
  let mapKeys ← loadLegacyKeys f.mapPath
  if writtenEntries ord pool s ≠ [] ∨ 1 < (f.nextKey :: mapKeys).length then
    ConfigStore.importFakeipState (writtenEntries ord pool s) (pool.cursorRecord s.next now.1)
      (f.nextKey :: mapKeys) none
  else pure ()

def writeBackIf (typedAbsent : Bool) (ord : AssocMap.IterOrder) (pool : FakeIpPool f)
    (s : PoolState f) (now : UnixTime) : StoreM Unit :=
  if typedAbsent then writeBack ord pool s now else pure ()

end FakeIpOpen

open FakeIpOpen in
/-- `open_with_prefix` with the reading of the clock. The range query refuses a
range that ends before it starts, so the last error is never reached. -/
def openWithPrefix {f : Family} (ord : AssocMap.IterOrder) (config : FakeIpConfig f)
    (poolPrefix : Text) (options : FakeIpPoolOptions) (now : UnixTime) :
    StoreM (FakeIpPool f × PoolState f) := do
  let checked ← Fallible.ofExcept (validateOpen config poolPrefix options).attach
  let scope : FakeIpScope := ⟨f.number, poolPrefix⟩
  let loaded ← load config scope options now
  if h : config.start.toNat ≤ config.stop.toNat then do
    have hv := validateOpen_eq_ok.mp checked.2
    let pool : FakeIpPool f :=
      ⟨config, poolPrefix, options, checked.1, hv.1, h, hv.2.1, hv.2.2.1, hv.2.2.2.1, hv.2.2.2.2.1,
        hv.2.2.2.2.2⟩
    let restored := restore config scope options now loaded
    deleteExpired scope restored.2
    let s ← trim ord scope options restored.1
    writeBackIf loaded.typedAbsent ord pool s now
    pure (pool, s)
  else Fallible.throw (.invalid "invalid FakeIP address range")

namespace FakeIpOpen

open Fallible (Triple)

variable {f : Family} {t : Tables}

section

variable (ord : AssocMap.IterOrder) (config : FakeIpConfig f) (scope : FakeIpScope)
  (options : FakeIpPoolOptions) (now : UnixTime) (t : Tables)

def loaded : Loaded f :=
  let others := t.entries.listInRange scope (if scope.family = 4 then 4 else 16)
    config.start.octets config.stop.octets
  let reserved := reservedOf others now.1 options.ttlSeconds
  let typedCursor := t.cursors.get? scope
  if t.entries.list scope = [] then
    ⟨legacyRecords config scope now (t.listKeys f.mapPath), reserved,
      initialNext config typedCursor ((t.config.get? f.nextKey).bind (Address.ofOctets? f)), true⟩
  else ⟨t.entries.list scope, reserved, initialNext config typedCursor none, false⟩

/-- The state after the loop over the rows, and the domains it found expired. -/
def restored : PoolState f × List Text :=
  restore config scope options now (loaded config scope options now t)

def trimmed : List DomainName :=
  trimDomains ord (restored config scope options now t).1 options.maxEntries

def openedState : PoolState f :=
  (restored config scope options now t).1.forgetAll (trimmed ord config scope options now t)

def prunedTables : Tables :=
  ((t.deleteDomains scope (restored config scope options now t).2).2.deleteDomains scope
    ((trimmed ord config scope options now t).map DomainName.text)).2

end

theorem loadLegacy_triple (c : FakeIpConfig f) (sc : FakeIpScope) (now : UnixTime) :
    Triple (fun s => s.tables = t) (loadLegacy c sc now)
      (fun l s => s.tables = t ∧ l = legacyRecords c sc now (t.listKeys f.mapPath))
      (fun s => s.tables = t) := by
  apply Triple.bind_fact (listConfig_triple f.mapPath)
  intro p hp
  apply Triple.pure
  intro s hs
  exact ⟨hs, by rw [hp]⟩

theorem load_triple (c : FakeIpConfig f) (sc : FakeIpScope) (o : FakeIpPoolOptions)
    (now : UnixTime) :
    Triple (fun s => s.tables = t) (load c sc o now)
      (fun l s => s.tables = t ∧ l = loaded c sc o now t) (fun s => s.tables = t) := by
  apply Triple.bind_fact (read_triple _ _)
  intro _ ht
  apply Triple.bind_fact (listFakeipEntriesInRange_triple sc _ _)
  intro _ ho
  apply Triple.bind_fact (read_triple _ _)
  intro _ hc
  subst ht ho hc
  unfold loaded
  by_cases ha : t.entries.list sc = []
  · simp only [if_pos ha]
    apply Triple.bind_fact (loadLegacy_triple c sc now)
    intro _ hl
    apply Triple.bind_fact (read_triple _ _)
    intro v hv
    apply Triple.pure
    intro s hs
    exact ⟨hs, by rw [hl, hv]⟩
  · simp only [if_neg ha]
    exact Triple.pure fun s hs => ⟨hs, rfl⟩

theorem deleteExpired_triple (sc : FakeIpScope) (ex : List Text) :
    Triple (fun s => s.tables = t) (deleteExpired sc ex)
      (fun _ s => s.tables = (t.deleteDomains sc ex).2) (fun s => s.tables = t) := by
  unfold deleteExpired
  by_cases he : ex = []
  · rw [if_pos he]
    apply Triple.pure
    intro s hs
    rw [hs, he]
    rfl
  · rw [if_neg he]
    apply Triple.bind (deleteFakeipEntries_triple sc ex)
    intro _
    exact Triple.pure fun _ hs => hs

theorem trim_triple (ord : AssocMap.IterOrder) (sc : FakeIpScope) (o : FakeIpPoolOptions)
    (s : PoolState f) :
    Triple (fun st => st.tables = t) (trim ord sc o s)
      (fun s' st => s' = s.forgetAll (trimDomains ord s o.maxEntries) ∧
        st.tables = (t.deleteDomains sc
          ((trimDomains ord s o.maxEntries).map DomainName.text)).2) (fun st => st.tables = t) := by
  unfold trim
  by_cases hf : s.forward.size - o.maxEntries = 0
  · rw [if_pos hf]
    apply Triple.pure
    intro st hs
    have hnil : trimDomains ord s o.maxEntries = [] := by
      rw [trimDomains, hf]
      rfl
    rw [hnil]
    exact ⟨rfl, hs⟩
  · rw [if_neg hf]
    apply Triple.bind (deleteFakeipEntries_triple sc _)
    intro _
    exact Triple.pure fun _ hs => ⟨rfl, hs⟩

theorem loadLegacyKeys_triple (path : Text) : Triple (fun s => s.tables = t) (loadLegacyKeys path)
      (fun keys s => s.tables = t ∧ keys = (t.listKeys path).map Prod.fst)
      (fun s => s.tables = t) := by
  apply Triple.bind_fact (listConfig_triple path)
  intro p hp
  apply Triple.pure
  intro s hs
  exact ⟨hs, by rw [hp]⟩

/-- How the tables change when the pool is open: not at all if the scope had
rows or there is nothing to take over, else by the import. -/
inductive WroteBack (ord : AssocMap.IterOrder) (pool : FakeIpPool f) (s : PoolState f)
    (now : UnixTime) (t : Tables) : Bool → Tables → Prop
  | typed : WroteBack ord pool s now t false t
  | nothing (hentries : writtenEntries ord pool s = []) (hkeys : t.listKeys f.mapPath = []) :
      WroteBack ord pool s now t true t
  | imported : WroteBack ord pool s now t true (t.importState (writtenEntries ord pool s)
      (pool.cursorRecord s.next now.1) (f.nextKey :: (t.listKeys f.mapPath).map Prod.fst)
        none false).2

theorem writeBackIf_triple (ty : Bool) (ord : AssocMap.IterOrder) (pool : FakeIpPool f)
    (s : PoolState f) (now : UnixTime) :
    Triple (fun st => st.tables = t) (writeBackIf ty ord pool s now)
      (fun _ st => WroteBack ord pool s now t ty st.tables) (fun st => st.tables = t) := by
  cases ty with
  | false =>
    apply Triple.pure
    intro st hs
    rw [hs]
    exact .typed
  | true =>
    apply Triple.bind_fact (loadLegacyKeys_triple f.mapPath)
    intro _ hk
    subst hk
    split_ifs with hw
    · apply Triple.bind (importFakeipStateInner_triple _ _ _ _ _)
      intro b
      apply Triple.pure
      intro st hb
      rw [show st.tables = _ from congrArg Prod.snd hb]
      exact .imported
    rw [not_or, not_not] at hw
    have hlen := hw.2
    simp only [List.length_cons, List.length_map] at hlen
    apply Triple.pure
    intro st hs
    rw [hs]
    exact .nothing hw.1 (List.eq_nil_of_length_eq_zero (by omega))

/-- The result of opening a pool, as a function of the tables. -/
structure Opened (ord : AssocMap.IterOrder) (config : FakeIpConfig f) (poolPrefix : Text)
    (options : FakeIpPoolOptions) (now : UnixTime) (t : Tables) (pool : FakeIpPool f)
    (s : PoolState f) (t' : Tables) : Prop where
  config_eq : pool.config = config
  poolPrefix_eq : pool.poolPrefix = poolPrefix
  options_eq : pool.options = options
  state : s = openedState ord config pool.scope options now t
  tables : WroteBack ord pool s now (prunedTables ord config pool.scope options now t)
    (loaded config pool.scope options now t).typedAbsent t'

end FakeIpOpen

open FakeIpOpen Fallible in
theorem openWithPrefix_triple {f : Family} (ord : AssocMap.IterOrder) (c : FakeIpConfig f)
    (p : Text) (o : FakeIpPoolOptions) (now : UnixTime) (t : Tables) :
    Triple (fun s => s.tables = t) (openWithPrefix ord c p o now)
      (fun r s => Opened ord c p o now t r.1 r.2 s.tables) (fun _ => True) := by
  apply Triple.ofExcept_bind (fun _ _ => trivial)
  intro _ _
  apply Triple.bind_fact ((load_triple c _ o now).conseq (fun _ h => h) (fun _ _ h => h)
    (fun _ _ => trivial))
  intro l hl
  subst hl
  by_cases hr : c.start.toNat ≤ c.stop.toNat
  · simp only [dif_pos hr]
    apply Triple.bind ((deleteExpired_triple _ _).conseq (fun _ h => h) (fun _ _ h => h)
      (fun _ _ => trivial))
    intro _
    apply Triple.bind ((trim_triple ord _ o _).conseq (fun _ h => h) (fun _ _ h => h)
      (fun _ _ => trivial))
    intro s st hs
    obtain ⟨rfl, hs⟩ := hs
    apply Triple.bind ((writeBackIf_triple _ ord _ _ now).conseq (fun _ h => h) (fun _ _ h => h)
      (fun _ _ => trivial)) _ st hs
    intro _
    apply Triple.pure
    intro st hs
    exact ⟨rfl, rfl, rfl, rfl, hs⟩
  · simp only [dif_neg hr]
    exact Triple.throw fun _ _ => trivial

open FakeIpOpen in
theorem opened_of_eq_ok {f : Family} {ord : AssocMap.IterOrder} {c : FakeIpConfig f} {p : Text}
    {o : FakeIpPoolOptions} {now : UnixTime} {st st' : ConfigStore} {pool : FakeIpPool f}
    {s : PoolState f} (h : openWithPrefix ord c p o now st = (.ok (pool, s), st')) :
    Opened ord c p o now st.tables pool s st'.tables := by
  have ht := openWithPrefix_triple ord c p o now st.tables st rfl
  rw [h] at ht
  exact ht

end Doradus
