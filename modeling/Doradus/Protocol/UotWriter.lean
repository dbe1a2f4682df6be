import Doradus.Protocol.DirectUot
import Doradus.Protocol.UdpFrames

/-!
# The writing side of a UDP-over-TCP session

`AsyncYuubinsyaUotSession` and `DirectUotSession` write frames one by one, or collect them in a
batch that is written as a whole and cleared afterwards. A call may be dropped wherever it
waits; the batch is kept as it is then, and one that was written in part is written again from
its beginning by the next flush. The coalescing task is a flush that is started again and
again, and its abort drops that flush.
-/

namespace Doradus

namespace UotWriter

open Yuubinsya (encodeUotFrame)

inductive Kind where
  | session
  | direct
  deriving DecidableEq

structure Config where
  kind : Kind
  udpCoalesce : Bool

/-- Only `AsyncYuubinsyaUotSession` looks again whether it is closed. -/
def Config.rechecks (config : Config) : Bool := config.kind = .session

def Config.closedError (config : Config) : Error :=
  match config.kind with
  | .session => ⟨.closed, "Yuubinsya UDP session is closed"⟩
  | .direct => DirectUot.closedError

def maxCoalesceBytes : ℕ := 64 * 1024

def maxCoalesceFrames : ℕ := 32

abbrev Datagram := Endpoint × Octets

def wire (datagram : Datagram) : Octets := (encodeUotFrame datagram.1 datagram.2).ok?.getD []

/-- The writer behind its lock, with the octets that the stream has taken and the datagrams
that the writer has accepted: put into the batch, or begun to write. -/
structure Writer where
  locked : Bool
  pending : Octets
  pendingFrames : ℕ
  closed : Bool
  written : Octets
  accepted : List Datagram

def Writer.new : Writer := ⟨false, [], 0, false, [], []⟩

inductive After where
  | sent
  | flushed
  | read

inductive Stage where
  | send (datagram : Datagram)
  | lockSend (datagram : Datagram)
  | beginFrame (datagram : Datagram)
  | writeFrame (rest : Octets)
  | flushFrame
  | flush (after : After)
  | lockFlush (after : After)
  | writeBatch (rest : Octets) (datagram : Option Datagram) (after : After)
  | flushBatch (datagram : Option Datagram) (after : After)
  | read
  | close

inductive Request where
  | sendTo (datagram : Datagram)
  | flush
  | recvFrom
  | coalesce
  | close

/-- A call is dropped, or what it waits for has a result; for a write this is the number of
octets that the stream has taken. -/
inductive Outcome where
  | dropped
  | result (result : Result ℕ)

def Outcome.fails : Outcome → Bool
  | .result (.ok _) => false
  | _ => true

def Outcome.writes : Outcome → Bool
  | .result (.ok count) => count ≠ 0
  | _ => false

abbrev Caller := Call Stage (Option (Result Unit))

def Request.enter : Request → Stage
  | .sendTo datagram => .send datagram
  | .flush => .flush .flushed
  | .recvFrom => .flush .read
  | .coalesce => .lockFlush .flushed
  | .close => .close

def Stage.holdsLock : Stage → Bool
  | .beginFrame _ => true
  | .writeFrame _ => true
  | .flushFrame => true
  | .writeBatch _ _ _ => true
  | .flushBatch _ _ => true
  | _ => false

namespace Writer

def returns (w : Writer) (result : Result Unit) : Caller × Writer :=
  (.returned (some result), { w with locked := false })

def finish (w : Writer) : After → Caller × Writer
  | .sent => w.returns (.ok ())
  | .flushed => w.returns (.ok ())
  | .read => (.running .read, { w with locked := false })

/-- `flush_async_uot_writer` by a call that has the lock. -/
def flushThen (w : Writer) (after : After) : Caller × Writer :=
  if w.pending = [] then w.finish after
  else (.running (.writeBatch w.pending none after), { w with locked := true })

/-- The end of `send_to`: the frame is put into the batch. -/
def append (w : Writer) (datagram : Datagram) : Caller × Writer :=
  let w := { w with
    pending := w.pending ++ wire datagram
    pendingFrames := w.pendingFrames + 1
    accepted := w.accepted ++ [datagram] }
  if maxCoalesceFrames ≤ w.pendingFrames then w.flushThen .sent else w.finish .sent

def isFull (w : Writer) (datagram : Datagram) : Bool :=
  maxCoalesceBytes < (wire datagram).length ||
    maxCoalesceBytes < w.pending.length + (wire datagram).length ||
    maxCoalesceFrames ≤ w.pendingFrames

/-- One `poll_write` of `write_all`, with the datagrams that are accepted if octets are taken. -/
def write (w : Writer) (rest : Octets) (accepted : List Datagram) (result : Result ℕ)
    (next : Octets → Stage) (done : Stage) : Caller × Writer :=
  match result with
  | .error error => w.returns (.error error)
  | .ok count =>
    if count = 0 then w.returns (.error ⟨.io, "write zero"⟩)
    else (.running (if rest.drop count = [] then done else next (rest.drop count)),
      { w with written := w.written ++ rest.take count, accepted := accepted })

def advance (config : Config) (result : Result ℕ) (w : Writer) : Stage → Option (Caller × Writer)
  | .send datagram =>
    if w.closed then some (.returned (some (.error config.closedError)), w)
    else
      match encodeUotFrame datagram.1 datagram.2 with
      | .error error => some (.returned (some (.error error)), w)
      | .ok _ => some (.running (.lockSend datagram), w)
  | .lockSend datagram =>
    if w.locked then none
    else if config.rechecks && w.closed then some (w.returns (.error config.closedError))
    else if !config.udpCoalesce then
      some (.running (.beginFrame datagram), { w with locked := true })
    else if w.isFull datagram && w.pending ≠ [] then
      some (.running (.writeBatch w.pending (some datagram) .sent), { w with locked := true })
    else some (w.append datagram)
  | .beginFrame datagram =>
    some (w.write (wire datagram) (w.accepted ++ [datagram]) result .writeFrame .flushFrame)
  | .writeFrame rest => some (w.write rest w.accepted result .writeFrame .flushFrame)
  | .flushFrame => some (w.returns (result.map fun _ => ()))
  | .flush after =>
    if config.rechecks && w.closed then some (.returned (some (.error config.closedError)), w)
    else some (.running (.lockFlush after), w)
  | .lockFlush after => if w.locked then none else some (w.flushThen after)
  | .writeBatch rest datagram after =>
    some (w.write rest w.accepted result (fun rest => .writeBatch rest datagram after)
      (.flushBatch datagram after))
  | .flushBatch datagram after =>
    match result with
    | .error error => some (w.returns (.error error))
    | .ok _ =>
      let w := { w with pending := [], pendingFrames := 0 }
      match datagram with
      | some datagram => some (w.append datagram)
      | none => some (w.finish after)
  | .read => some (.returned (some (result.map fun _ => ())), w)
  | .close =>
    if w.closed then some (.returned (some (.ok ())), w)
    else some (.running (.lockFlush .flushed), { w with closed := true })

/-- What a call does at a stage; a call that is dropped releases the lock. -/
def exec (config : Config) (outcome : Outcome) (w : Writer) (stage : Stage) :
    Option (Caller × Writer) :=
  match outcome with
  | .dropped => some (.returned none, if stage.holdsLock then { w with locked := false } else w)
  | .result result => w.advance config result stage

def machine (config : Config) : Calls.Machine Writer Stage (Option (Result Unit)) Request Outcome :=
  ⟨Request.enter, fun _ outcome stage w => w.exec config outcome stage⟩

open List Option Stage

variable {config : Config} {w w' : Writer} {stage : Stage} {caller : Caller} {outcome : Outcome}

def frames (w : Writer) : Octets := (w.accepted.map wire).flatten

/-- Between two calls, the batch is what is still to be written. -/
structure Balanced (config : Config) (w : Writer) : Prop where
  written_append : w.written ++ w.pending = w.frames
  pending_eq : config.udpCoalesce = false → w.pending = []

def Sees (config : Config) (w : Writer) : Stage → Prop
  | .beginFrame _ => w.Balanced config ∧ w.pending = []
  | .writeFrame rest => w.pending = [] ∧ w.written ++ rest = w.frames
  | .flushFrame => w.pending = [] ∧ w.written = w.frames
  | .writeBatch rest _ _ => config.udpCoalesce = true ∧ w.written ++ rest = w.frames
  | .flushBatch _ _ => config.udpCoalesce = true ∧ w.written = w.frames
  | _ => False

/-- The state that a step of the call with the lock leaves. -/
structure Leaves (config : Config) (caller : Caller) (w : Writer) : Prop where
  held : (caller.Ongoing fun stage => stage.holdsLock = true) →
    w.locked = true ∧ caller.Ongoing (w.Sees config)
  released : (¬ caller.Ongoing fun stage => stage.holdsLock = true) →
    w.locked = false ∧ w.Balanced config

section

variable (h : w.Balanced config)
include h

theorem Balanced.released (r : Option (Result Unit)) :
    Leaves config (.returned r) { w with locked := false } :=
  ⟨fun hh => hh.elim, fun _ => ⟨rfl, h.1, h.2⟩⟩

theorem Balanced.unlocked (hl : w.locked = false)
    (hc : ¬ caller.Ongoing fun stage => stage.holdsLock = true) : Leaves config caller w :=
  ⟨fun hh => (hc hh).elim, fun _ => ⟨hl, h⟩⟩

theorem Balanced.finish (a : After)
    (heq : w.finish a = (caller, w')) : Leaves config caller w' := by
  cases a with
  | sent | flushed =>
    cases heq
    exact h.released _
  | read =>
    cases heq
    exact Balanced.unlocked ⟨h.1, h.2⟩ rfl (by simp [Call.Ongoing, holdsLock])

theorem Balanced.flushThen (a : After)
    (heq : w.flushThen a = (caller, w')) : Leaves config caller w' := by
  unfold Writer.flushThen at heq
  split_ifs at heq with hp
  · exact h.finish a heq
  have hc : config.udpCoalesce = true := by
    by_contra hpl
    exact hp (h.pending_eq (Bool.eq_false_of_not_eq_true hpl))
  cases heq
  exact ⟨fun _ => ⟨rfl, hc, h.written_append⟩, fun hn => (hn rfl).elim⟩

end

theorem balanced_of_coalesce (hc : config.udpCoalesce = true)
    (hw : w.written ++ w.pending = w.frames) : w.Balanced config := by
  refine ⟨hw, fun hp => ?_⟩
  rw [hc] at hp
  cases hp

theorem Balanced.append (h : w.Balanced config) (hc : config.udpCoalesce = true)
    (d : Datagram) (heq : w.append d = (caller, w')) : Leaves config caller w' := by
  have ha : Balanced config { w with
      pending := w.pending ++ wire d
      pendingFrames := w.pendingFrames + 1
      accepted := w.accepted ++ [d] } := by
    apply balanced_of_coalesce hc
    rw [← append_assoc, h.written_append]
    simp [frames]
  unfold Writer.append at heq
  dsimp only at heq
  split_ifs at heq
  · exact ha.flushThen .sent heq
  · exact ha.finish .sent heq

/-- A call that has the lock ends only where nothing or all of its batch is written. -/
def unbroken (w : Writer) (outcome : Outcome) : Stage → Bool
  | .writeFrame _ => outcome.writes
  | .writeBatch rest _ _ => outcome.writes || rest = w.pending
  | .flushBatch _ _ => !outcome.fails
  | _ => true

theorem write_cases (w : Writer) (rest : Octets) (accepted : List Datagram) (result : Result ℕ)
    (next : Octets → Stage) (done : Stage) :
    ((Outcome.result result).writes = false ∧
        ∃ error, w.write rest accepted result next done = w.returns (.error error)) ∨
      ((Outcome.result result).writes = true ∧ ∃ taken left, rest = taken ++ left ∧
        w.write rest accepted result next done = (.running (if left = [] then done else next left),
          { w with written := w.written ++ taken, accepted := accepted })) := by
  cases result with
  | error error => exact .inl ⟨rfl, error, rfl⟩
  | ok count =>
    by_cases hc : count = 0
    · refine .inl ⟨by simp [Outcome.writes, hc], ⟨.io, "write zero"⟩, ?_⟩
      rw [write, if_pos hc]
    · refine .inr ⟨by simp [Outcome.writes, hc], rest.take _, rest.drop _,
        (take_append_drop count _).symm, ?_⟩
      rw [write, if_neg hc]

theorem leaves_frame (hl : w.locked = true) (hp : w.pending = []) {t left : Octets}
    {accepted : List Datagram} (hf : w.written ++ (t ++ left) = (accepted.map wire).flatten) :
    Leaves config (.running (if left = [] then .flushFrame else .writeFrame left))
      { w with written := w.written ++ t, accepted := accepted } := by
  split_ifs with hlf
  · subst hlf
    refine ⟨fun _ => ⟨hl, hp, ?_⟩, fun hn => (hn rfl).elim⟩
    rw [frames, ← hf, append_nil]
  · refine ⟨fun _ => ⟨hl, hp, ?_⟩, fun hn => (hn rfl).elim⟩
    rw [frames, ← hf, append_assoc]

theorem Sees.exec (hs : w.Sees config stage) (hl : w.locked = true)
    (hu : w.unbroken outcome stage = true)
    (h : w.exec config outcome stage = some (caller, w')) : Leaves config caller w' := by
  cases stage with
  | beginFrame d =>
    obtain ⟨hb, hp⟩ := hs
    cases outcome with
    | dropped =>
      cases h
      exact hb.released none
    | result result =>
      rcases w.write_cases (wire d) (w.accepted ++ [d]) _ .writeFrame
        .flushFrame with ⟨-, error, hw⟩ | ⟨-, t, left, hr, hw⟩
      · cases h.symm.trans (congrArg some hw)
        exact hb.released _
      cases h.symm.trans (congrArg some hw)
      apply leaves_frame hl hp
      rw [← hr, map_append, flatten_append, ← frames, ← hb.written_append, hp]
      simp
  | writeFrame rest =>
    obtain ⟨hp, hf⟩ := hs
    cases outcome with
    | dropped => cases hu
    | result result =>
      rcases w.write_cases rest w.accepted _ .writeFrame .flushFrame with
        ⟨hn, error, hw⟩ | ⟨-, t, left, rfl, hw⟩
      · cases hn.symm.trans hu
      · cases h.symm.trans (congrArg some hw)
        exact leaves_frame hl hp hf
  | flushFrame =>
    obtain ⟨hp, hwr⟩ := hs
    have hb : w.Balanced config := by
      refine ⟨?_, fun _ => hp⟩
      rw [hp, append_nil]
      exact hwr
    cases outcome with
    | dropped =>
      cases h
      exact hb.released none
    | result =>
      cases h
      exact hb.released _
  | writeBatch rest d a =>
    obtain ⟨hc, hf⟩ := hs
    have hst : outcome.writes = false → w.Balanced config := by
      intro hn
      simp only [unbroken, hn, Bool.false_or, decide_eq_true_eq] at hu
      exact balanced_of_coalesce hc (hu ▸ hf)
    cases outcome with
    | dropped =>
      cases h
      exact (hst rfl).released none
    | result result =>
      rcases w.write_cases rest w.accepted _ (fun rest => .writeBatch _ d a)
        (.flushBatch d a) with ⟨hn, error, hw⟩ | ⟨-, t, left, rfl, hw⟩
      · cases h.symm.trans (congrArg some hw)
        exact (hst hn).released _
      · cases h.symm.trans (congrArg some hw)
        split_ifs with hlf
        · subst hlf
          refine ⟨fun _ => ⟨hl, hc, ?_⟩, fun hn => (hn rfl).elim⟩
          rw [append_nil] at hf
          exact hf
        · refine ⟨fun _ => ⟨hl, hc, ?_⟩, fun hn => (hn rfl).elim⟩
          rw [append_assoc]
          exact hf
  | flushBatch d a =>
    obtain ⟨hc, hwr⟩ := hs
    have hcl : Balanced config { w with pending := [], pendingFrames := 0 } :=
      balanced_of_coalesce hc (by rw [append_nil]; exact hwr)
    rcases outcome with _ | (error | count)
    · cases hu
    · cases hu
    · cases d with
      | none => exact hcl.finish a (some.inj h)
      | some d => exact hcl.append hc d (some.inj h)
  | _ => cases hs

theorem Balanced.exec (hb : w.Balanced config) (hl : w.locked = false)
    (hs : stage.holdsLock = false) (h : w.exec config outcome stage = some (caller, w')) :
    Leaves config caller w' := by
  cases outcome with
  | dropped =>
    simp only [Writer.exec, hs] at h
    cases h
    exact hb.unlocked hl fun hh => hh
  | result =>
    unfold Writer.exec advance at h
    cases stage with
    | send =>
      dsimp only at h
      split_ifs at h
      · cases h
        exact hb.unlocked hl fun hh => hh
      · split at h <;> cases h <;> exact hb.unlocked hl (by simp [Call.Ongoing, holdsLock])
    | lockSend d =>
      dsimp only at h
      split_ifs at h with hlc hcl hp hf
      · cases h
        exact hb.released _
      · cases h
        have hpn := hb.pending_eq (by simpa using hp)
        exact ⟨fun _ => ⟨rfl, ⟨hb.1, hb.2⟩, hpn⟩, fun hn => (hn rfl).elim⟩
      · cases h
        have hc : config.udpCoalesce = true := by simpa using hp
        exact ⟨fun _ => ⟨rfl, hc, hb.written_append⟩, fun hn => (hn rfl).elim⟩
      · exact hb.append (by simpa using hp) d (some.inj h)
    | flush =>
      split_ifs at h <;> cases h <;> exact hb.unlocked hl (by simp [Call.Ongoing, holdsLock])
    | lockFlush a =>
      dsimp only at h
      split_ifs at h
      exact hb.flushThen a (some.inj h)
    | read =>
      cases h
      exact hb.unlocked hl fun hh => hh
    | close =>
      dsimp only at h
      split_ifs at h
      · cases h
        exact hb.unlocked hl fun hh => hh
      · cases h
        exact Balanced.unlocked ⟨hb.1, hb.2⟩ hl (by simp [Call.Ongoing, holdsLock])
    | beginFrame | writeFrame | flushFrame | writeBatch | flushBatch => cases hs

theorem exec_of_locked (hl : w.locked = true) (hs : stage.holdsLock = false)
    (h : w.exec config outcome stage = some (caller, w')) :
    (¬ caller.Ongoing fun stage => stage.holdsLock = true) ∧
      ∃ closed, w' = { w with closed := closed } := by
  cases outcome with
  | dropped =>
    simp only [exec, hs] at h
    cases h
    exact ⟨fun hh => hh, w.closed, rfl⟩
  | result =>
    unfold exec advance at h
    cases stage with
    | send =>
      dsimp only at h
      split_ifs at h
      · cases h
        exact ⟨fun hh => hh, w.closed, rfl⟩
      · split at h <;> cases h <;> exact ⟨by simp [Call.Ongoing, holdsLock], w.closed, rfl⟩
    | lockSend | lockFlush =>
      simp only [hl] at h
      cases h
    | flush =>
      split_ifs at h <;> cases h <;> exact ⟨by simp [Call.Ongoing, holdsLock], w.closed, rfl⟩
    | read =>
      cases h
      exact ⟨fun hh => hh, w.closed, rfl⟩
    | close =>
      split_ifs at h <;> cases h <;> exact ⟨by simp [Call.Ongoing, holdsLock], _, rfl⟩
    | beginFrame | writeFrame | flushFrame | writeBatch | flushBatch => cases hs

theorem Sees.closed (h : w.Sees config stage) (closed : Bool) :
    ({ w with closed := closed } : Writer).Sees config stage := by
  cases stage with
  | beginFrame => exact ⟨⟨h.1.1, h.1.2⟩, h.2⟩
  | writeFrame | flushFrame | writeBatch | flushBatch => exact h
  | _ => cases h

theorem Sees.written_isPrefix (h : w.Sees config stage) : w.written <+: w.frames := by
  cases stage with
  | beginFrame => exact ⟨_, h.1.written_append⟩
  | writeFrame rest | writeBatch rest => exact ⟨rest, h.2⟩
  | flushFrame | flushBatch => exact h.2 ▸ prefix_rfl
  | _ => cases h

end Writer

abbrev Writers := Calls Writer Stage (Option (Result Unit))

def unbroken (s : Writers) : Calls.Event Request Outcome → Bool
  | .start _ => true
  | .resume index outcome =>
    match s.calls[index]? with
    | some (.running stage) => s.shared.unbroken outcome stage
    | _ => true

structure Coherent (config : Config) (s : Writers) : Prop where
  unlocked : s.shared.locked = false →
    s.shared.Balanced config ∧ ∀ i stage, s.RunsAt i stage → stage.holdsLock = false
  locked : s.shared.locked = true → ∃ i stage, s.RunsAt i stage ∧ s.shared.Sees config stage ∧
    ∀ j other, s.RunsAt j other → other.holdsLock = true → j = i

variable {config : Config} {s : Writers} {index : ℕ} {stage : Stage} {caller : Caller}
  {outcome : Outcome} {w : Writer}

theorem coherent_of_leaves (hs : s.RunsAt index stage) (hlv : w.Leaves config caller)
    (hot : ∀ j o, j ≠ index → s.RunsAt j o → o.holdsLock = false) :
    Coherent config (s.moved index caller w) := by
  by_cases hh : caller.Ongoing fun stage => stage.holdsLock = true
  · obtain ⟨hl, hss⟩ := hlv.held hh
    refine ⟨fun hf => ?_, fun _ => ?_⟩
    · cases hl.symm.trans hf
    cases caller with
    | returned => cases hh
    | running next =>
      refine ⟨index, next, (Calls.runsAt_moved hs).mpr (.inl ⟨rfl, rfl⟩), hss, ?_⟩
      intro j o ho hhl
      rcases (Calls.runsAt_moved hs).mp ho with ⟨rfl, -⟩ | ⟨hne, hb⟩
      · rfl
      · cases (hot j o hne hb).symm.trans hhl
  · obtain ⟨hf, hbl⟩ := hlv.released hh
    refine ⟨fun _ => ⟨hbl, fun i o ho => ?_⟩, fun hl => ?_⟩
    · rcases (Calls.runsAt_moved hs).mp ho with ⟨-, rfl⟩ | ⟨hne, hb⟩
      · exact Bool.eq_false_of_not_eq_true hh
      · exact hot i o hne hb
    · cases hl.symm.trans hf

theorem Writer.Sees.holdsLock (h : w.Sees config stage) : stage.holdsLock = true := by
  cases stage with
  | beginFrame | writeFrame | flushFrame | writeBatch | flushBatch => rfl
  | _ => cases h

section

variable (h : Coherent config s)
include h

theorem Coherent.moved (hs : s.RunsAt index stage) (hu : s.shared.unbroken outcome stage = true)
    (he : s.shared.exec config outcome stage = some (caller, w)) :
    Coherent config (s.moved index caller w) := by
  cases hl : s.shared.locked with
  | false =>
    obtain ⟨hb, hn⟩ := h.unlocked hl
    exact coherent_of_leaves hs (hb.exec hl (hn _ _ hs) he)
      fun j o _ ho => hn j o ho
  | true =>
    obtain ⟨i, hol, hh, hss, hon⟩ := h.locked hl
    cases hhl : stage.holdsLock with
    | true =>
      obtain rfl := hon _ _ hs hhl
      obtain rfl := hs.unique hh
      refine coherent_of_leaves hs (hss.exec hl hu he) ?_
      intro j o hne ho
      by_contra hhe
      exact hne (hon j o ho (Bool.eq_true_of_not_eq_false hhe))
    | false =>
      obtain ⟨hc, c, rfl⟩ := Writer.exec_of_locked hl hhl he
      have hne : i ≠ index := by
        rintro rfl
        cases hhl.symm.trans (hs.unique hh ▸ hss.holdsLock)
      refine ⟨fun hf => ?_, fun _ => ⟨i, hol, ?_, hss.closed c, ?_⟩⟩
      · cases hl.symm.trans hf
      · exact (Calls.runsAt_moved hs).mpr (.inr ⟨hne, hh⟩)
      intro j o ho hhe
      rcases (Calls.runsAt_moved hs).mp ho with ⟨-, rfl⟩ | ⟨-, hbf⟩
      · exact (hc hhe).elim
      · exact hon j o hbf hhe

theorem Coherent.started (r : Request) : Coherent config (s.started r.enter) := by
  have hb : ∀ {i other}, (s.started r.enter).RunsAt i other → other.holdsLock = true →
      s.RunsAt i other := by
    intro i other ho hhl
    rcases Calls.runsAt_started.mp ho with hr | ⟨-, rfl⟩
    · exact hr
    · cases r <;> cases hhl
  refine ⟨fun hf => ⟨(h.unlocked hf).1, fun i other ho => ?_⟩, fun hl => ?_⟩
  · by_contra hhl
    have hh := Bool.eq_true_of_not_eq_false hhl
    cases ((h.unlocked hf).2 i other (hb ho hh)).symm.trans hh
  · obtain ⟨i, hol, hho, hs, hon⟩ := h.locked hl
    exact ⟨i, hol, Calls.runsAt_started.mpr (.inl hho), hs,
      fun j other ho hh => hon j _ (hb ho hh) hh⟩

theorem Coherent.step (e : Calls.Event Request Outcome) (hu : unbroken s e = true) :
    Coherent config (Calls.step (Writer.machine config) s e) := by
  generalize he : Calls.step (Writer.machine config) s e = s'
  cases Calls.step_effect he with
  | waits => exact h
  | starts r => exact h.started r
  | acts _ _ _ _ _ hs hex =>
    rw [unbroken, hs] at hu
    exact h.moved hs hu hex

end

theorem coherent_new : Coherent config ⟨.new, []⟩ :=
  ⟨fun _ => ⟨⟨rfl, fun _ => rfl⟩, by simp [Calls.RunsAt]⟩, fun hl => by cases hl⟩

theorem Coherent.written_isPrefix (h : Coherent config s) :
    s.shared.written <+: s.shared.frames := by
  cases hl : s.shared.locked with
  | false => exact ⟨_, (h.unlocked hl).1.written_append⟩
  | true =>
    obtain ⟨i, ho, -, hs, -⟩ := h.locked hl
    exact hs.written_isPrefix

def after (config : Config) (events : List (Calls.Event Request Outcome)) : Writers :=
  Run.run (Calls.step (Writer.machine config)) ⟨.new, []⟩ events

end UotWriter

open UotWriter in
/-- If no call is dropped or fails in the middle of a frame or of a batch, then what has been
written is always a beginning of the frames of the datagrams accepted so far. -/
theorem uotWriter_writes_frames (config : Config)
    (events : List (Calls.Event Request UotWriter.Outcome))
    (hevents : Run.Meets (Calls.step (Writer.machine config)) (fun s e => unbroken s e)
      ⟨.new, []⟩ events) :
    (after config events).shared.written <+:
      ((after config events).shared.accepted.map wire).flatten := by
  have hc : UotWriter.Coherent _ (after _ _) :=
    Run.invariant (Calls.step (Writer.machine config)) (fun _ e h hu => h.step e hu)
      events _ coherent_new hevents
  exact hc.written_isPrefix

def UotWriter.exampleDatagram : Datagram := (.ip .udp (.v4 .localhost 53), [7])

/-- A datagram is put into the batch, a flush writes two octets of it and is then dropped or
goes on, and the batch is flushed again. -/
def UotWriter.exampleEvents (dropped : Bool) : List (Calls.Event Request Outcome) :=
  [.start (.sendTo exampleDatagram), .resume 0 (.result (.ok 0)), .resume 0 (.result (.ok 0)),
    .start .flush, .resume 1 (.result (.ok 0)), .resume 1 (.result (.ok 0)),
    .resume 1 (.result (.ok 2)), .resume 1 (if dropped then .dropped else .result (.ok 100)),
    .resume 1 (.result (.ok 0)),
    .start .recvFrom, .resume 2 (.result (.ok 0)), .resume 2 (.result (.ok 0)),
    .resume 2 (.result (.ok 100))]

open UotWriter in
theorem uotWriter_writes_frames_flushed :
    (after ⟨.session, true⟩ (exampleEvents false)).shared.accepted = [exampleDatagram] ∧
      (after ⟨.session, true⟩ (exampleEvents false)).shared.written <+:
        ((after ⟨.session, true⟩ (exampleEvents false)).shared.accepted.map wire).flatten := by
  refine ⟨by decide +kernel, ?_⟩
  exact uotWriter_writes_frames ⟨.session, true⟩ (exampleEvents false) (by decide +kernel)

open UotWriter in
/-- After the flush was dropped, the batch is written again from its beginning, in both kinds
of session. -/
theorem uotWriter_writes_twice :
    (after ⟨.session, true⟩ (exampleEvents true)).shared.accepted = [exampleDatagram] ∧
      (after ⟨.session, true⟩ (exampleEvents true)).shared.written =
        [1, 127, 1, 127, 0, 0, 1, 0, 53, 0, 1, 7] ∧
      wire exampleDatagram = [1, 127, 0, 0, 1, 0, 53, 0, 1, 7] ∧
      (after ⟨.direct, true⟩ (exampleEvents true)).shared.written =
        (after ⟨.session, true⟩ (exampleEvents true)).shared.written := by
  decide +kernel

end Doradus
