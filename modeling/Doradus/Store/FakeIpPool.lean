import Doradus.Store.FakeIpStore

/-!
# FakeIP pools

The IPv4 and the IPv6 pool are one definition over the address family; they differ in the width of
the address, in the width of the scan arithmetic, in the overflow check of the range size and in
the texts of their errors. Timestamps are `i64` values, subtraction wraps as in an optimised build.
-/

namespace Doradus

abbrev Address (f : Family) := BitVec f.bits

namespace Address

variable {f : Family}

def octets (a : Address f) : List UInt8 := Bytes.ofNat f.octetCount a.toNat

def ofOctets? (f : Family) (ip : List UInt8) : Option (Address f) :=
  if ip.length = f.octetCount then some (BitVec.ofNat f.bits (Bytes.toNat ip)) else none

@[simp] theorem length_octets (a : Address f) : a.octets.length = f.octetCount :=
  Bytes.length_ofNat _ _

theorem toNat_lt (a : Address f) : a.toNat < 256 ^ f.octetCount := by
  rw [f.pow_octetCount]
  exact a.isLt

theorem octets_inj {a b : Address f} : a.octets = b.octets ↔ a = b := by
  constructor
  · intro h
    exact BitVec.eq_of_toNat_eq (Bytes.ofNat_injective a.toNat_lt b.toNat_lt h)
  · intro h
    rw [h]

@[simp] theorem toNat_octets (a : Address f) : Bytes.toNat a.octets = a.toNat := by
  rw [octets, Bytes.toNat_ofNat, Nat.mod_eq_of_lt a.toNat_lt]

@[simp] theorem ofOctets?_octets (a : Address f) : ofOctets? f a.octets = some a := by
  rw [ofOctets?, if_pos a.length_octets, toNat_octets]
  simp

theorem octets_of_ofOctets? {ip : List UInt8} {a : Address f} (h : ofOctets? f ip = some a) :
    a.octets = ip := by
  unfold ofOctets? at h
  split_ifs at h with hl
  cases h
  have hlt := Bytes.toNat_lt ip
  rw [hl, f.pow_octetCount] at hlt
  rw [octets, BitVec.toNat_ofNat, Nat.mod_eq_of_lt hlt, ← hl]
  exact Bytes.ofNat_toNat ip

end Address

/-- The text that distinguishes the errors of the IPv6 pool. -/
def Family.tag : Family → String
  | .v4 => ""
  | .v6 => "IPv6 "

/-- The scan of the IPv4 pool computes in `u64`, that of the IPv6 pool in `u128`. -/
def Family.scanBits : Family → ℕ
  | .v4 => 64
  | .v6 => 128

structure FakeIpConfig (f : Family) where
  start : Address f
  stop : Address f
  deriving DecidableEq

namespace FakeIpConfig

variable {f : Family}

def size (config : FakeIpConfig f) : Result ℕ :=
  match f with
  | .v4 => .ok ((config.stop - config.start).toNat + 1)
  | .v6 =>
    if config.stop.toNat < config.start.toNat ∨
        config.stop.toNat - config.start.toNat + 1 = 2 ^ 128 then
      .error (.invalid "FakeIP IPv6 pool is too large")
    else .ok (config.stop.toNat - config.start.toNat + 1)

def Contains (config : FakeIpConfig f) (a : Address f) : Prop :=
  config.start.toNat ≤ a.toNat ∧ a.toNat ≤ config.stop.toNat

instance (config : FakeIpConfig f) (a : Address f) : Decidable (config.Contains a) :=
  inferInstanceAs (Decidable (_ ∧ _))

def normalizeNext (config : FakeIpConfig f) (next : Address f) : Address f :=
  if config.Contains next then next else config.start

end FakeIpConfig

structure FakeIpPoolOptions where
  maxEntries : ℕ
  ttlSeconds : Int64
  touchIntervalSeconds : Int64
  deriving DecidableEq, Repr

def expiredAt (lastUsedAt now ttlSeconds : Int64) : Bool :=
  decide (lastUsedAt ≤ now ∧ ttlSeconds ≤ now - lastUsedAt)

def saturatingSub (a b : Int64) : Int64 :=
  if a.toInt - b.toInt < -2 ^ 63 then Int64.minValue
  else if 2 ^ 63 ≤ a.toInt - b.toInt then Int64.maxValue
  else a - b

theorem toInt_sub_lt_of_saturatingSub_lt {a b c : Int64} (h : saturatingSub a b < c) :
    a.toInt - b.toInt < c.toInt := by
  have hc := c.toInt_lt
  unfold saturatingSub at h
  rw [Int64.lt_iff_toInt_lt] at h
  split_ifs at h with h₁ h₂
  · rw [Int64.toInt_minValue] at h
    omega
  · rw [Int64.toInt_maxValue] at h
    omega
  · rw [Int64.toInt_sub, Int.bmod_eq_of_le (by omega) (by omega)] at h
    exact h

/-- A reading of the system clock in seconds since the epoch is never negative. -/
abbrev UnixTime := { t : Int64 // 0 ≤ t }

structure Mapping (f : Family) where
  address : Address f
  createdAt : Int64
  lastUsedAt : Int64
  persistedLastUsedAt : Int64
  deriving DecidableEq

structure PoolState (f : Family) where
  next : Address f
  forward : AssocMap DomainName (Mapping f)
  reverse : AssocMap (Address f) DomainName
  reserved : AssocMap (Address f) Int64

namespace PoolState

variable {f : Family}

def forget (s : PoolState f) (domain : DomainName) : PoolState f :=
  match s.forward.get? domain with
  | some mapping =>
    { s with forward := s.forward.erase domain, reverse := s.reverse.erase mapping.address }
  | none => s

def forgetAll (s : PoolState f) (domains : List DomainName) : PoolState f := domains.foldl forget s

def record (s : PoolState f) (domain : DomainName) (mapping : Mapping f) : PoolState f :=
  { s with
    forward := s.forward.insert domain mapping
    reverse := s.reverse.insert mapping.address domain }

def retainReserved (s : PoolState f) (now ttlSeconds : Int64) : PoolState f :=
  { s with reserved := s.reserved.retain fun _ lastUsedAt => !expiredAt lastUsedAt now ttlSeconds }

def modifyMapping (s : PoolState f) (domain : DomainName) (g : Mapping f → Mapping f) :
    PoolState f :=
  { s with forward := s.forward.modify domain g }

end PoolState

def leastRecent {f : Family} (l : List (DomainName × Mapping f)) :
    Option (DomainName × Mapping f) :=
  l.foldl (fun best e =>
    match best with
    | none => some e
    | some b => if e.2.lastUsedAt < b.2.lastUsedAt then some e else some b) none

/-- A pool as `open_with_prefix` returns it: the options have passed its checks
and `size` is the size of the range. -/
structure FakeIpPool (f : Family) where
  config : FakeIpConfig f
  poolPrefix : Text
  options : FakeIpPoolOptions
  size : ℕ
  size_eq : config.size = .ok size
  start_le : config.start.toNat ≤ config.stop.toNat
  max_pos : 0 < options.maxEntries
  max_le : options.maxEntries ≤ size
  ttl_pos : 0 < options.ttlSeconds
  touch_pos : 0 < options.touchIntervalSeconds
  prefix_ok : validateId poolPrefix = .ok ()

structure World (f : Family) where
  memory : PoolState f
  store : ConfigStore

abbrev PoolM (f : Family) (α : Type) := Fallible Error (World f) α

def onStore {f : Family} {α : Type} (x : StoreM α) : PoolM f α :=
  Fallible.focus World.store (fun w store => { w with store := store }) x

namespace FakeIpPool

variable {f : Family} (pool : FakeIpPool f)

def scope : FakeIpScope := ⟨f.number, pool.poolPrefix⟩

def entryRecord (domain : DomainName) (address : Address f) (createdAt lastUsedAt : Int64) :
    FakeIpEntryRecord :=
  { toFakeIpKey := pool.scope.key domain.text
    ip := address.octets
    createdAt := createdAt
    lastUsedAt := lastUsedAt }

def cursorRecord (next : Address f) (updatedAt : Int64) : FakeIpCursorRecord :=
  { toFakeIpScope := pool.scope
    cursorIp := next.octets
    cursorIdx :=
      if (next - pool.config.start).toNat < 2 ^ 63 then .ofNat (next - pool.config.start).toNat
      else Int64.maxValue
    updatedAt := updatedAt }

/-- The address `offset` places after `from`, wrapping around at the end of the
range. -/
def candidate (base : Address f) (offset : ℕ) : Address f :=
  pool.config.start + BitVec.ofNat f.bits
    (((base - pool.config.start).toNat + offset) % 2 ^ f.scanBits % pool.size)

/-- The scan for a free address; `remaining` offsets are left to try. -/
def scan (s : PoolState f) : ℕ → ℕ → Option (Address f)
  | 0, _ => none
  | remaining + 1, offset =>
    let address := pool.candidate s.next offset
    if s.reverse.contains address = false ∧ s.reserved.contains address = false then some address
    else scan s remaining (offset + 1)

/-- The address for a new mapping and the domain that has to give way for it. -/
def selectAddress (ord : AssocMap.IterOrder) (s : PoolState f) :
    Result (Address f × Option DomainName) :=
  let exhausted : Error := ⟨.storage, "FakeIP " ++ f.tag ++ "pool is exhausted"⟩
  if pool.options.maxEntries ≤ s.forward.size then
    match leastRecent (ord s.forward.entries) with
    | some (evicted, mapping) => .ok (mapping.address, some evicted)
    | none => .error exhausted
  else
    match pool.scan s pool.size 0 with
    | some address => .ok (address, none)
    | none => .error exhausted

def forgetDomains (domains : List DomainName) : PoolM f Unit := do
  let _ ← onStore (ConfigStore.deleteFakeipEntries pool.scope (domains.map DomainName.text))
  Fallible.modify fun w => { w with memory := w.memory.forgetAll domains }

/-- A hit on a live mapping; the row is touched once the interval has passed. -/
def refresh (domain : DomainName) (mapping : Mapping f) (now : Int64) : PoolM f (Address f) :=
  if pool.options.touchIntervalSeconds ≤ saturatingSub now mapping.persistedLastUsedAt then do
    let _ ← onStore (ConfigStore.touchFakeipEntries pool.scope [(domain.text, now)])
    Fallible.modify fun w => { w with memory := w.memory.modifyMapping domain fun m =>
      { m with persistedLastUsedAt := now, lastUsedAt := now } }
    pure mapping.address
  else do
    Fallible.modify fun w => { w with memory := w.memory.modifyMapping domain fun m =>
      { m with lastUsedAt := now } }
    pure mapping.address

def assign (domain : DomainName) (address : Address f) (evicted : Option DomainName)
    (now : Int64) : PoolM f (Address f) := do
  let next := pool.candidate address 1
  onStore (ConfigStore.replaceFakeipEntry (pool.entryRecord domain address now now)
    (pool.cursorRecord next now) (evicted.map DomainName.text))
  Fallible.modify fun w =>
    { w with memory := { (w.memory.forgetAll evicted.toList).record domain ⟨address, now, now, now⟩
        with next := next } }
  pure address

def expiredDomains (ord : AssocMap.IterOrder) (s : PoolState f) (now : Int64) : List DomainName :=
  ((ord s.forward.entries).filter fun e =>
    expiredAt e.2.lastUsedAt now pool.options.ttlSeconds).map Prod.fst

def dropExpired (ord : AssocMap.IterOrder) (now : Int64) : PoolM f Unit := do
  let w ← Fallible.get
  if pool.expiredDomains ord w.memory now = [] then pure ()
  else pool.forgetDomains (pool.expiredDomains ord w.memory now)

/-- The part of `allocate_at` that finds an address for an unmapped domain. -/
def allocateFresh (ord : AssocMap.IterOrder) (domain : DomainName) (now : Int64) :
    PoolM f (Address f) := do
  pool.dropExpired ord now
  let w ← Fallible.get
  let selected ← Fallible.ofExcept (pool.selectAddress ord w.memory)
  pool.assign domain selected.1 selected.2 now

def allocateAt (ord : AssocMap.IterOrder) (domain : DomainName) (now : Int64) :
    PoolM f (Address f) := do
  Fallible.modify fun w => { w with memory := w.memory.retainReserved now pool.options.ttlSeconds }
  let w ← Fallible.get
  match w.memory.forward.get? domain with
  | some mapping =>
    if expiredAt mapping.lastUsedAt now pool.options.ttlSeconds = false then
      pool.refresh domain mapping now
    else do
      pool.forgetDomains [domain]
      pool.allocateFresh ord domain now
  | none => pool.allocateFresh ord domain now

def release (domain : DomainName) : PoolM f Bool := do
  let w ← Fallible.get
  match w.memory.forward.get? domain with
  | none => pure false
  | some _ => do
    pool.forgetDomains [domain]
    pure true

def pendingTouches (ord : AssocMap.IterOrder) (s : PoolState f) : List (DomainName × Mapping f) :=
  (ord s.forward.entries).filter fun e => e.2.lastUsedAt ≠ e.2.persistedLastUsedAt

/-- Mark the last use of a domain, given by its text, as written. -/
def settle (s : PoolState f) (touch : Text × Int64) : PoolState f :=
  match DomainName.new touch.1 with
  | .ok domain => s.modifyMapping domain fun m => { m with persistedLastUsedAt := m.lastUsedAt }
  | .error _ => s

def flushTouches (ord : AssocMap.IterOrder) : PoolM f ℕ := do
  let w ← Fallible.get
  let touches := (pendingTouches ord w.memory).map fun e => (e.1.text, e.2.lastUsedAt)
  let updated ← onStore (ConfigStore.touchFakeipEntries pool.scope touches)
  Fallible.modify fun w => { w with memory := touches.foldl settle w.memory }
  pure updated

end FakeIpPool

end Doradus
