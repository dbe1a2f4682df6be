import Doradus.Lib.Run

/-!
# The owner of a TUN device

The owner reads its configuration, sets the device up and runs it until an event asks for a
reload. It subscribes to the events only when it starts to wait, so it does not hear of those that
come before. While its device is disabled or has failed it takes an event for the shutdown and
ends. The supervisor of the inbounds starts a desktop owner again after every event, unless it
cannot read the configuration of the device, but leaves an injected one to itself; if it cannot
start the inbounds at all, all owners end.
-/

namespace Doradus

inductive OwnerPhase where
  /-- The configuration has been read, and nobody waits for events. -/
  | setup
  | running
  /-- The device is disabled or has failed, and nobody waits for events. -/
  | stopped
  | waiting
  | ended
  deriving DecidableEq

/-- `stale` says that no owner runs, or is disabled, by a configuration read after the last event,
`pending` that the owner's subscription holds one, and `due` that the supervisor has not handled
one. -/
structure TunOwner where
  injected : Bool
  /-- The configuration has an `inbound_id`, which a running owner compares with. -/
  named : Bool
  phase : OwnerPhase
  stale : Bool
  pending : Bool
  due : Bool
  shutdown : Bool
  deriving DecidableEq

/-- How `start_inbounds` goes: it fails, or `load_tun_configs_for_desktop` does, or a desktop device
gets a new owner if it is enabled. -/
inductive TunStart where
  | failed
  | unloaded
  | loaded (enabled : Bool)

inductive TunInput where
  /-- An event for all inbounds, or for the id of the owner only. -/
  | publish (all : Bool)
  | signal
  /-- The device is set up, and the owner starts to wait beside it. -/
  | start
  /-- The device is disabled, cannot be set up, or fails. -/
  | stop
  | wait
  /-- What the owner waits for has come; the configuration may be unreadable. -/
  | wake (loaded : Bool)
  | supervise (outcome : TunStart)

namespace TunOwner

def new (injected named : Bool) : TunOwner := ⟨injected, named, .setup, false, false, false, false⟩

def hears (s : TunOwner) (all : Bool) : Bool :=
  match s.phase with
  | .running => all || s.named
  | .waiting => true
  | .setup | .stopped | .ended => false

/-- The end of the loop in `run_tun_owner`, after a device that ran until an event. -/
def reload (s : TunOwner) (loaded : Bool) : TunOwner :=
  if s.shutdown then { s with phase := .ended, pending := false }
  else { s with phase := .setup, pending := false, stale := s.stale && !loaded }

def step (s : TunOwner) : TunInput → TunOwner
  | .publish all => { s with stale := true, due := true, pending := s.pending || s.hears all }
  | .signal => { s with shutdown := true }
  | .start => if s.phase = .setup then { s with phase := .running } else s
  | .stop =>
    if s.phase = .setup ∨ s.phase = .running then { s with phase := .stopped, pending := false }
    else s
  | .wait =>
    if s.phase ≠ .stopped then s
    else if s.shutdown then { s with phase := .ended }
    else { s with phase := .waiting }
  | .wake loaded =>
    if !s.pending && !s.shutdown then s
    else match s.phase with
      | .running => s.reload loaded
      | .waiting => { s with phase := .ended, pending := false }
      | .setup | .stopped | .ended => s
  | .supervise outcome =>
    if !s.due || s.shutdown then s
    else match s.injected, outcome with
      | _, .failed | false, .unloaded =>
        { s with due := false, phase := .ended, stale := true, pending := false }
      | true, .unloaded | true, .loaded _ => { s with due := false }
      | false, .loaded enabled =>
        let phase := if enabled then .setup else .ended
        { s with due := false, phase, stale := false, pending := false }

/-- The steps that are left to the owner and the supervisor when no event comes. -/
def Enabled (s : TunOwner) : TunInput → Prop
  | .publish _ | .signal => False
  | .start => s.phase = .setup
  | .stop => s.phase = .setup ∨ s.phase = .running
  | .wait => s.phase = .stopped
  | .wake _ => s.pending = true ∧ (s.phase = .running ∨ s.phase = .waiting)
  | .supervise _ => s.due = true ∧ s.shutdown = false

/-- What an owner hears of comes after it has read. A desktop owner with nobody to start it again
has ended. -/
structure Sound (s : TunOwner) : Prop where
  heard : s.pending = true → s.stale = true ∧ (s.phase = .running ∨ s.phase = .waiting)
  left : s.shutdown = false → s.injected = false → s.stale = true → s.due = false →
    s.phase = .ended

variable {s : TunOwner} {a : TunInput}

theorem Sound.step (h : s.Sound) (a : TunInput) : (s.step a).Sound := by
  obtain ⟨hp, hl⟩ := h
  obtain ⟨injected, named, phase, stale, pending, due, shutdown⟩ := s
  cases a with
  | supervise outcome =>
    cases injected <;> cases outcome <;> constructor <;> grind [TunOwner.step]
  | _ => constructor <;> grind [TunOwner.step, reload, hears]

def OwnerPhase.rank : OwnerPhase → ℕ
  | .setup => 3
  | .running => 2
  | .stopped => 1
  | .waiting | .ended => 0

/-- Handling an event may lead back to the set-up of the device. -/
def rank (s : TunOwner) : ℕ :=
  (if s.due then 4 else 0) + (if s.pending then 4 else 0) + OwnerPhase.rank s.phase

theorem rank_step (ha : s.Enabled a) : (s.step a).rank < s.rank := by
  obtain ⟨injected, named, phase, stale, pending, due, shutdown⟩ := s
  cases a with
  | supervise outcome =>
    cases injected <;> cases outcome <;> grind [rank, OwnerPhase.rank, Enabled, TunOwner.step]
  | _ => cases phase <;> grind [rank, OwnerPhase.rank, Enabled, TunOwner.step, reload]

end TunOwner

end Doradus
