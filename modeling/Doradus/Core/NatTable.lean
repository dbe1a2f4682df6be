import Doradus.Lib.AssocMap
import Doradus.Types.Error
import Doradus.Types.Net
import Doradus.Types.Time

/-!
# The full-cone NAT table

Every operation runs under one lock, so it is a function of the table and of
its readings of the clock. `none` stands for a panic: a failed `expect`, or a
subtraction below zero. The lock is never poisoned unless an operation panics.
Hash maps hand out their entries in an arbitrary order.
-/

namespace Doradus

structure NatKey where
  network : Network
  source : SocketAddr
  destination : SocketAddr
  deriving DecidableEq, Repr

structure NatEntry where
  translated : SocketAddr
  createdAt : Instant
  lastSeen : Instant
  idleTimeout : Duration
  deriving DecidableEq, Repr

def NatEntry.isExpired (entry : NatEntry) (now : Instant) : Bool :=
  decide (entry.idleTimeout ≤ now.saturatingDurationSince entry.lastSeen)

structure NatBindingKey where
  network : Network
  source : SocketAddr
  deriving DecidableEq, Repr

structure NatEndpointKey where
  network : Network
  address : SocketAddr
  deriving DecidableEq, Repr

def NatKey.bindingKey (key : NatKey) : NatBindingKey := ⟨key.network, key.source⟩

structure NatBinding where
  entry : NatEntry
  destinations : AssocMap SocketAddr Unit
  deriving DecidableEq

def NatBinding.flows (ord : AssocMap.IterOrder) (key : NatBindingKey) (binding : NatBinding) :
    List NatKey :=
  (ord binding.destinations.entries).map fun e => ⟨key.network, key.source, e.1⟩

structure NatState where
  entries : AssocMap NatBindingKey NatBinding
  translated : AssocMap NatEndpointKey NatBindingKey
  activeDestinations : ℕ
  deriving DecidableEq

structure NatMetrics where
  allocations : UInt64 := 0
  reuses : UInt64 := 0
  touchHits : UInt64 := 0
  touchMisses : UInt64 := 0
  reverseLookups : UInt64 := 0
  reverseHits : UInt64 := 0
  translatedRebinds : UInt64 := 0
  expiredBindings : UInt64 := 0
  explicitCloses : UInt64 := 0
  deriving DecidableEq, Repr

structure NatTable where
  state : NatState
  metrics : NatMetrics
  deriving DecidableEq

namespace NatState

def drop (s : NatState) (key : NatBindingKey) (binding : NatBinding) : NatState where
  entries := s.entries.erase key
  translated := s.translated.erase ⟨key.network, binding.entry.translated⟩
  activeDestinations := s.activeDestinations - binding.destinations.size

def removeBinding (s : NatState) (key : NatBindingKey) : Option (Option NatBinding × NatState) :=
  match s.entries.get? key with
  | none => some (none, s)
  | some binding =>
    if binding.destinations.size ≤ s.activeDestinations then
      some (some binding, s.drop key binding)
    else none

/-- A flow of the binding was seen: its destination joins the set. -/
def see (s : NatState) (key : NatBindingKey) (binding : NatBinding) (destination : SocketAddr)
    (now : Instant) : NatState :=
  { s with
    entries := s.entries.modify key fun b =>
      { entry := { b.entry with lastSeen := now }
        destinations := b.destinations.insert destination () }
    activeDestinations :=
      s.activeDestinations + if binding.destinations.contains destination then 0 else 1 }

def refresh (s : NatState) (key : NatBindingKey) (now : Instant) : NatState :=
  { s with entries := s.entries.modify key fun b =>
      { b with entry := { b.entry with lastSeen := now } } }

def ownedByOther (s : NatState) (key : NatBindingKey) (translated : SocketAddr) : Bool :=
  (s.translated.get? ⟨key.network, translated⟩).any fun owner => owner ≠ key

end NatState

namespace NatTable

def new : NatTable := ⟨⟨∅, ∅, 0⟩, {}⟩

def count (t : NatTable) (g : NatMetrics → NatMetrics) : NatTable :=
  { t with metrics := g t.metrics }

def expire (t : NatTable) (key : NatBindingKey) : Option NatTable :=
  match t.state.removeBinding key with
  | some (some _, state) =>
    some { state, metrics := { t.metrics with expiredBindings := t.metrics.expiredBindings + 1 } }
  | _ => none

def insert (t : NatTable) (key : NatKey) (translated : SocketAddr) (idleTimeout : Duration)
    (now : Instant) : Result Unit × NatTable :=
  if idleTimeout = 0 then
    (.error ⟨.invalidInput, "NAT idle timeout must be greater than zero"⟩, t)
  else
    match t.state.entries.get? key.bindingKey with
    | some binding =>
      if binding.entry.translated ≠ translated then
        (.error (.invalid "full-cone NAT source already uses another translated endpoint"), t)
      else
        (.ok (),
          { state := t.state.see key.bindingKey binding key.destination now
            metrics := { t.metrics with reuses := t.metrics.reuses + 1 } })
    | none =>
      if t.state.ownedByOther key.bindingKey translated then
        (.error (.invalid "translated NAT endpoint is already owned by another source"), t)
      else
        (.ok (),
          { state :=
              { entries := t.state.entries.insert key.bindingKey
                  ⟨⟨translated, now, now, idleTimeout⟩,
                    (∅ : AssocMap SocketAddr Unit).insert key.destination ()⟩
                translated := t.state.translated.insert ⟨key.network, translated⟩ key.bindingKey
                activeDestinations := t.state.activeDestinations + 1 }
            metrics := { t.metrics with allocations := t.metrics.allocations + 1 } })

/-- `touch` reads the clock to see whether the binding has expired, and again
to refresh it. -/
def touch (t : NatTable) (key : NatKey) (checked now : Instant) :
    Option (Result (Option NatEntry) × NatTable) :=
  let missed := fun m : NatMetrics => { m with touchMisses := m.touchMisses + 1 }
  match t.state.entries.get? key.bindingKey with
  | none => some (.ok none, t.count missed)
  | some binding =>
    if binding.entry.isExpired checked then do
      let (removed, state) ← t.state.removeBinding key.bindingKey
      let expired := fun m : NatMetrics =>
        if removed.isSome then { m with expiredBindings := m.expiredBindings + 1 } else m
      some (.ok none, (NatTable.mk state t.metrics).count (missed ∘ expired))
    else
      some (.ok (some { binding.entry with lastSeen := now }),
        { state := t.state.see key.bindingKey binding key.destination now
          metrics := { t.metrics with touchHits := t.metrics.touchHits + 1 } })

def bindTranslated (t : NatTable) (network : Network) (source translated : SocketAddr)
    (now : Instant) : Option (Result NatEntry × NatTable) :=
  let key : NatBindingKey := ⟨network, source⟩
  match t.state.entries.get? key with
  | none => some (.error ⟨.notFound, "NAT source binding does not exist"⟩, t)
  | some current =>
    if current.entry.isExpired now then do
      let t ← t.expire key
      some (.error ⟨.closed, "NAT source binding expired before translated endpoint was ready"⟩, t)
    else if current.entry.translated = translated then
      some (.ok { current.entry with lastSeen := now }, { t with state := t.state.refresh key now })
    else if t.state.ownedByOther key translated then
      some (.error (.invalid "translated NAT endpoint is already owned by another source"), t)
    else
      some (.ok { current.entry with translated := translated, lastSeen := now },
        { state :=
            { t.state with
              entries := t.state.entries.modify key fun b =>
                { b with entry := { b.entry with translated := translated, lastSeen := now } }
              translated := (t.state.translated.erase ⟨network, current.entry.translated⟩).insert
                ⟨network, translated⟩ key }
          metrics := { t.metrics with translatedRebinds := t.metrics.translatedRebinds + 1 } })

def remove (t : NatTable) (key : NatKey) : Option (Result (Option NatEntry) × NatTable) :=
  match t.state.entries.get? key.bindingKey with
  | none => some (.ok none, t)
  | some binding =>
    let removed := if binding.destinations.contains key.destination then 1 else 0
    if removed ≤ t.state.activeDestinations then
      let state : NatState :=
        { t.state with
          entries := t.state.entries.modify key.bindingKey fun b =>
            { b with destinations := b.destinations.erase key.destination }
          activeDestinations := t.state.activeDestinations - removed }
      if (binding.destinations.erase key.destination).size ≠ 0 then
        some (.ok (some binding.entry), { t with state })
      else
        match state.removeBinding key.bindingKey with
        | some (some binding, state) =>
          some (.ok (some binding.entry),
            { state, metrics := { t.metrics with explicitCloses := t.metrics.explicitCloses + 1 } })
        | _ => none
    else none

def removeSource (t : NatTable) (network : Network) (source : SocketAddr) :
    Option (Result ℕ × NatTable) := do
  let (binding, state) ← t.state.removeBinding ⟨network, source⟩
  match binding with
  | none => some (.ok 0, { t with state })
  | some binding =>
    some (.ok binding.destinations.size,
      { state, metrics := { t.metrics with explicitCloses := t.metrics.explicitCloses + 1 } })

def expiredBindings (t : NatTable) (ord : AssocMap.IterOrder) (now : Instant) :
    List (NatBindingKey × NatBinding) :=
  (ord t.state.entries.entries).filter fun e => e.2.entry.isExpired now

def removeBindings (s : NatState) (keys : List NatBindingKey) : Option NatState :=
  keys.foldlM (fun s key => (s.removeBinding key).map Prod.snd) s

def sweepKeys (t : NatTable) (ord : AssocMap.IterOrder) (now : Instant) :
    Option (Result (List NatKey) × NatTable) := do
  let expired := t.expiredBindings ord now
  let state ← removeBindings t.state (expired.map Prod.fst)
  some (.ok (expired.flatMap fun e => e.2.flows ord e.1),
    { state, metrics := { t.metrics with
        expiredBindings := t.metrics.expiredBindings + .ofNat expired.length } })

/-- `lookup_translated`; the external source is not looked at. -/
def lookupTranslated (t : NatTable) (ord : AssocMap.IterOrder) (network : Network)
    (translated _externalSource : SocketAddr) (checked now : Instant) :
    Option (Result (Option NatKey) × NatTable) :=
  let t := t.count fun m => { m with reverseLookups := m.reverseLookups + 1 }
  match t.state.translated.get? ⟨network, translated⟩ with
  | none => some (.ok none, t)
  | some key =>
    match t.state.entries.get? key with
    | none => some (.ok none, t)
    | some current =>
      if current.entry.isExpired checked then do
        let t ← t.expire key
        some (.ok none, t)
      else
        let result := (current.flows ord key).head?
        let t := { t with state := t.state.refresh key now }
        some (.ok result, if result.isSome then
          t.count fun m => { m with reverseHits := m.reverseHits + 1 } else t)

def lookupSource (t : NatTable) (network : Network) (source : SocketAddr) (now : Instant) :
    Option (Result (Option NatEntry) × NatTable) :=
  match t.state.entries.get? ⟨network, source⟩ with
  | none => some (.ok none, t)
  | some current =>
    if current.entry.isExpired now then do
      let t ← t.expire ⟨network, source⟩
      some (.ok none, t)
    else some (.ok (some current.entry), t)

end NatTable

inductive NatInput where
  | insert (key : NatKey) (translated : SocketAddr) (idleTimeout : Duration) (now : Instant)
  | touch (key : NatKey) (checked now : Instant)
  | bindTranslated (network : Network) (source translated : SocketAddr) (now : Instant)
  | remove (key : NatKey)
  | removeSource (network : Network) (source : SocketAddr)
  | sweepKeys (ord : AssocMap.IterOrder) (now : Instant)
  | lookupTranslated (ord : AssocMap.IterOrder) (network : Network)
      (translated externalSource : SocketAddr) (checked now : Instant)
  | lookupSource (network : Network) (source : SocketAddr) (now : Instant)

def NatTable.step (t : NatTable) : NatInput → Option NatTable
  | .insert key translated idleTimeout now => some (t.insert key translated idleTimeout now).2
  | .touch key checked now => (t.touch key checked now).map Prod.snd
  | .bindTranslated network source translated now =>
    (t.bindTranslated network source translated now).map Prod.snd
  | .remove key => (t.remove key).map Prod.snd
  | .removeSource network source => (t.removeSource network source).map Prod.snd
  | .sweepKeys ord now => (t.sweepKeys ord now).map Prod.snd
  | .lookupTranslated ord network translated externalSource checked now =>
    (t.lookupTranslated ord network translated externalSource checked now).map Prod.snd
  | .lookupSource network source now => (t.lookupSource network source now).map Prod.snd

end Doradus
