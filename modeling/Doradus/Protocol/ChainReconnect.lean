import Doradus.Protocol.ChainUot

/-!
# Reconnects of a UDP-over-TCP chain

Every write and every read may fail. `send_to` and `recv_from` then connect another session, which
is given the datagrams of the retry queue before it is installed. Calls run one after the other.
-/

namespace Doradus.Chain

open List
open Yuubinsya (encodeUotFrame)

def maxUotReconnectAttempts : ℕ := 3

def isRecoverableUotError (e : Error) : Bool :=
  match e.kind with
  | .io | .closed | .protocol | .timeout => true
  | _ => false

/-- How the operations on streams end in a call: the failure of its write, and what each attempt to
read and to reconnect gives, by the number of attempts that are left. -/
structure Outcomes where
  write : Option String
  read : ℕ → Result (Endpoint × Octets)
  connect : ℕ → Result Unit

inductive LinkCall where
  | sendTo (payload : Octets) (target : Endpoint) (outcomes : Outcomes)
  | recvFrom (outcomes : Outcomes) (size : ℕ)
  | close

/-- A `ChainDatagram` with the datagrams that its session has taken, and whether an operation on
the session has failed. -/
structure ChainLink extends ChainDatagram where
  session : List PendingUotDatagram
  failed : Bool

namespace ChainLink

def new : ChainLink := ⟨.new, [], false⟩

def sendOnce (d : ChainLink) (frame : PendingUotDatagram) (write : Option String) :
    Result Unit × ChainLink :=
  match d.toChainDatagram.sendOnce frame.target frame.payload, write with
  | .error e, _ => (.error e, d)
  | .ok (), some text => (.error ⟨.io, text⟩, { d with failed := true })
  | .ok (), none => (.ok (), { d with session := d.session ++ [frame] })

/-- The loop of `reconnect`, up to the failures of the new stream. -/
def replay : List PendingUotDatagram → Result Unit
  | [] => .ok ()
  | frame :: frames => do
    let _ ← encodeUotFrame frame.target frame.payload
    replay frames

/-- A failure to connect, to replay or to flush drops the new session. -/
def reconnect (d : ChainLink) (connect : Result Unit) : Result Unit × ChainLink :=
  if d.closed then (.error ChainDatagram.closedError, d)
  else
    match connect, replay d.retry.frames with
    | .error e, _ | .ok (), .error e => (.error e, d)
    | .ok (), .ok () => (.ok (), { d with session := d.retry.frames, failed := false })

def dropRetry (d : ChainLink) (id : ℕ) : ChainLink := { d with retry := d.retry.removeId id }

/-- The loop of `send_to`. -/
def recover (d : ChainLink) (id : ℕ) (error : Error) (outcomes : Outcomes) :
    ℕ → Result Unit × ChainLink
  | 0 => (.error error, d)
  | left + 1 =>
    match d.reconnect (outcomes.connect left) with
    | (.ok (), d) => (.ok (), d)
    | (.error e, d) =>
      if e.kind = .closed then (.error e, d.dropRetry id) else d.recover id e outcomes left

def sendTo (d : ChainLink) (payload : Octets) (target : Endpoint) (outcomes : Outcomes) :
    Result ℕ × ChainLink :=
  let id := d.nextRetryId
  let d := { d with nextRetryId := id + 1 }
  match d.retry.push ⟨id, target, payload⟩ with
  | .error e => (.error e, d)
  | .ok retry =>
    match sendOnce { d with retry := retry } ⟨id, target, payload⟩ outcomes.write with
    | (.ok (), d) => (.ok payload.length, d)
    | (.error e, d) =>
      if isRecoverableUotError e then
        let (result, d) := d.recover id e outcomes maxUotReconnectAttempts
        (result.map fun _ => payload.length, d)
      else (.error e, d.dropRetry id)

def recvOnce (d : ChainLink) (read : Result (Endpoint × Octets)) :
    Result (Endpoint × Octets) × ChainLink :=
  if d.closed then (.error ChainDatagram.closedError, d)
  else (read, { d with failed := d.failed || !read.isOk })

/-- The loop of `recv_from`. -/
def receive (d : ChainLink) (outcomes : Outcomes) : ℕ → Result (Endpoint × Octets) × ChainLink
  | 0 => d.recvOnce (outcomes.read 0)
  | left + 1 =>
    match d.recvOnce (outcomes.read (left + 1)) with
    | (.ok datagram, d) => (.ok datagram, d)
    | (.error e, d) =>
      if isRecoverableUotError e then
        match d.reconnect (outcomes.connect left) with
        | (.ok (), d) => d.receive outcomes left
        | (.error e, d) => (.error e, d)
      else (.error e, d)

def recvFrom (d : ChainLink) (outcomes : Outcomes) (size : ℕ) :
    Result (ℕ × Endpoint) × ChainLink :=
  match d.receive outcomes maxUotReconnectAttempts with
  | (.error e, d) => (.error e, d)
  | (.ok (source, payload), d) =>
    (d.toChainDatagram.recvFrom source payload size).map id ({ d with toChainDatagram := · })

def step (d : ChainLink) : LinkCall → ChainLink
  | .sendTo payload target outcomes => (d.sendTo payload target outcomes).2
  | .recvFrom outcomes size => (d.recvFrom outcomes size).2
  | .close => { d with closed := true, retry := .new, session := [] }

def Encodable (frame : PendingUotDatagram) : Prop :=
  ∃ wire, encodeUotFrame frame.target frame.payload = .ok wire

/-- The datagrams stand in the order of the calls, each once. -/
def Numbered (frames : List PendingUotDatagram) (next : ℕ) : Prop :=
  (frames.map (·.id)).Sublist (range next)

/-- While the session works, it has taken all that waits for an acknowledgement. -/
structure Synced (d : ChainLink) : Prop where
  queued : Numbered d.retry.frames d.nextRetryId
  taken : Numbered d.session d.nextRetryId
  encodable : d.closed = false → ∀ frame ∈ d.retry.frames, Encodable frame
  sublist : d.closed = false → d.failed = false → d.retry.frames.Sublist d.session

variable {d : ChainLink} {frames : List PendingUotDatagram} {n : ℕ} {q q' : RetryQueue}
  {frame : PendingUotDatagram} {target : Endpoint} {payload : Octets}

theorem Numbered.succ (h : Numbered frames n) : Numbered frames (n + 1) :=
  h.trans (range_sublist.mpr n.le_succ)

theorem Numbered.push (h : Numbered frames n) :
    Numbered (frames ++ [⟨n, target, payload⟩]) (n + 1) := by
  rw [Numbered, map_append, range_succ]
  exact h.append_right _

theorem replay_eq_ok (h : ∀ frame ∈ frames, Encodable frame) : replay frames = .ok () := by
  induction frames with
  | nil => rfl
  | cons frame frames ih =>
    obtain ⟨⟨wire, hw⟩, hf⟩ := forall_mem_cons.mp h
    rw [replay, hw, Result.ok_bind, ih hf]

theorem Synced.remove (h : d.Synced) (index : Option ℕ) :
    Synced { d with retry := d.retry.remove index } := by
  have hs : (d.retry.remove index).frames.Sublist d.retry.frames := by
    unfold RetryQueue.remove
    split
    · exact .refl _
    · exact eraseIdx_sublist ..
  exact ⟨(hs.map _).trans h.queued, h.taken, fun hc frame hf => h.encodable hc frame (hs.subset hf),
    fun hc hf => hs.trans (h.sublist hc hf)⟩

/-- What is queued never makes a reconnect fail. -/
theorem Synced.reconnect_eq (h : d.Synced) (hc : d.closed = false) (connect : Result Unit) :
    d.reconnect connect = (connect, if connect.isOk then
      { d with session := d.retry.frames, failed := false } else d) := by
  simp only [ChainLink.reconnect, hc, replay_eq_ok (h.encodable hc)]
  cases connect <;> rfl

theorem Synced.reconnect (h : d.Synced) (connect : Result Unit) :
    (d.reconnect connect).2.Synced := by
  cases hc : d.closed with
  | true => simpa [ChainLink.reconnect, hc] using h
  | false =>
    rw [h.reconnect_eq hc]
    dsimp only
    split_ifs
    · exact ⟨h.queued, h.queued, h.encodable, fun _ _ => .refl _⟩
    · exact h

theorem Synced.recover (h : d.Synced) (id : ℕ) (error : Error) (outcomes : Outcomes) (left : ℕ) :
    (d.recover id error outcomes left).2.Synced := by
  induction left generalizing d error with
  | zero => exact h
  | succ left ih =>
    have hr := h.reconnect (outcomes.connect left)
    simp only [ChainLink.recover]
    split
    next heq => rwa [heq] at hr
    next heq =>
    rw [heq] at hr
    split_ifs
    · exact hr.remove _
    · exact ih hr _

theorem Synced.recvOnce (h : d.Synced) (read : Result (Endpoint × Octets)) :
    (d.recvOnce read).2.Synced := by
  unfold ChainLink.recvOnce
  split_ifs
  · exact h
  · exact ⟨h.queued, h.taken, h.encodable, fun hc hf => h.sublist hc (by simp_all)⟩

theorem Synced.receive (h : d.Synced) (outcomes : Outcomes) (left : ℕ) :
    (d.receive outcomes left).2.Synced := by
  induction left generalizing d with
  | zero => exact h.recvOnce _
  | succ left ih =>
    have hr := h.recvOnce (outcomes.read (left + 1))
    simp only [ChainLink.receive]
    split
    next heq => rwa [heq] at hr
    next heq =>
    rw [heq] at hr
    split_ifs
    · have hc := hr.reconnect (outcomes.connect left)
      split
      next heq => exact ih (by rwa [heq] at hc)
      next heq => rwa [heq] at hc
    · exact hr

theorem Synced.recvFrom (h : d.Synced) (outcomes : Outcomes) (size : ℕ) :
    (d.recvFrom outcomes size).2.Synced := by
  have hr := h.receive outcomes maxUotReconnectAttempts
  simp only [ChainLink.recvFrom]
  split
  next heq => rwa [heq] at hr
  next heq =>
  rw [heq] at hr
  simp only [ChainDatagram.recvFrom]
  split_ifs
  · exact hr
  · exact hr
  · exact hr.remove _

theorem sendOnce_open : (ChainDatagram.mk false n q).sendOnce target payload =
    (encodeUotFrame target payload).map fun _ => () := by
  rw [ChainDatagram.sendOnce]
  cases encodeUotFrame target payload <;> rfl

theorem isRecoverable_of_encode {e : Error} (h : encodeUotFrame target payload = .error e) :
    isRecoverableUotError e = false := by
  unfold encodeUotFrame at h
  split_ifs at h
  · cases h
    rfl
  cases target with
  | ip _ address => cases address <;> cases h
  | domain _ host =>
    simp only [Yuubinsya.encodeEndpoint] at h
    split_ifs at h <;> cases h
    rfl

/-- A datagram that is dropped after it was queued leaves the queue as it was. -/
theorem removeId_push (h : Numbered q.frames frame.id) (hp : q.push frame = .ok q') :
    q'.frames = q.frames ++ [frame] ∧ q'.removeId frame.id = q := by
  unfold RetryQueue.push at hp
  split_ifs at hp
  cases hp
  have hn : q.frames.findIdx? (·.id = frame.id) = none := by
    simpa using fun x hx => (mem_range.mp (h.subset (mem_map_of_mem hx))).ne
  simp [RetryQueue.removeId, RetryQueue.remove, findIdx?_append, hn,
    eraseIdx_append_of_length_le]

theorem Synced.sendTo (h : d.Synced) (payload : Octets) (target : Endpoint) (outcomes : Outcomes) :
    (d.sendTo payload target outcomes).2.Synced := by
  obtain ⟨⟨closed, next, q⟩, session, failed⟩ := d
  obtain ⟨hq, ht, he, hs⟩ := h
  dsimp only at hq ht he hs
  simp only [ChainLink.sendTo]
  split
  · exact ⟨hq.succ, ht.succ, he, hs⟩
  next retry hp =>
  obtain ⟨hf, hr⟩ := removeId_push hq hp
  have hq' : Numbered retry.frames (next + 1) := hf ▸ hq.push
  cases closed with
  | true =>
    -- nothing is written, and the reconnect finds the datagram closed as well
    have hm : Synced ⟨⟨true, next + 1, retry⟩, session, failed⟩ := ⟨hq', ht.succ, nofun, nofun⟩
    exact hm.recover ..
  | false =>
    cases hw : encodeUotFrame target payload with
    | error e =>
      have hu := isRecoverable_of_encode hw
      simp only [sendOnce, sendOnce_open, hw, Except.map, hu, dropRetry, hr]
      exact ⟨hq.succ, ht.succ, he, hs⟩
    | ok wire =>
      have he' : ∀ frame ∈ retry.frames, Encodable frame := by
        rw [hf, forall_mem_append, forall_mem_singleton]
        exact ⟨he rfl, wire, hw⟩
      cases ho : outcomes.write with
      | none =>
        simp only [sendOnce, sendOnce_open, hw, Except.map]
        refine ⟨hq', ht.push, fun _ => he', fun _ hb => ?_⟩
        exact hf ▸ (hs rfl hb).append_right _
      | some text =>
        have hm : Synced ⟨⟨false, next + 1, retry⟩, session, true⟩ :=
          ⟨hq', ht.succ, fun _ => he', nofun⟩
        simp only [sendOnce, sendOnce_open, hw, Except.map]
        exact hm.recover ..

theorem Synced.step (h : d.Synced) (call : LinkCall) : (d.step call).Synced := by
  cases call with
  | sendTo => exact h.sendTo ..
  | recvFrom => exact h.recvFrom ..
  | close => exact ⟨nil_sublist _, nil_sublist _, nofun, nofun⟩

end ChainLink

open ChainLink in
/-- However streams fail, a session takes each datagram at most once and in the order of the calls.
An open link whose session works has given it all that waits for an acknowledgement, and a
reconnect fails only with its stream, never with what it replays. -/
theorem chainLink_replays_unacknowledged (calls : List LinkCall) :
    (let d := Run.run step new calls
    d.session.Pairwise (·.id < ·.id) ∧ (d.closed = false →
      (d.failed = false → d.retry.frames.Sublist d.session) ∧
        ∀ connect, (d.reconnect connect).1 = connect)) := by
  have hs : (Run.run step new calls).Synced :=
    Run.invariant_of_forall step (fun d call h => h.step call) calls new
      ⟨nil_sublist _, nil_sublist _, nofun, fun _ _ => .refl _⟩
  refine ⟨pairwise_map.mp (pairwise_lt_range.sublist hs.taken), fun hc => ⟨hs.sublist hc, ?_⟩⟩
  intro connect
  rw [hs.reconnect_eq hc]

/-- The call on streams that do not fail. -/
def ChainCall.undisturbed : ChainCall → LinkCall
  | .sendTo payload target =>
    .sendTo payload target ⟨none, fun _ => .ok (target, payload), fun _ => .ok ()⟩
  | .recvFrom source payload size =>
    .recvFrom ⟨none, fun _ => .ok (source, payload), fun _ => .ok ()⟩ size
  | .close => .close

namespace ChainLink

theorem step_undisturbed (d : ChainLink) (call : ChainCall) :
    (d.step call.undisturbed).toChainDatagram = d.toChainDatagram.step call := by
  obtain ⟨⟨closed, next, q⟩, session, failed⟩ := d
  cases call with
  | sendTo payload target =>
    simp only [step, ChainCall.undisturbed, sendTo, ChainDatagram.step, ChainDatagram.sendTo]
    cases q.push ⟨next, target, payload⟩ with
    | error => rfl
    | ok retry =>
      cases closed with
      | true => rfl
      | false =>
        cases he : encodeUotFrame target payload with
        | error e =>
          simp [sendOnce, sendOnce_open, he, Except.map, isRecoverable_of_encode he, dropRetry]
        | ok => simp only [sendOnce, sendOnce_open, he, Except.map]
  | recvFrom source payload size => cases closed <;> rfl
  | close => rfl

end ChainLink

open ChainLink in
/-- On streams that do not fail the retry queue goes the way of `ChainDatagram`. -/
theorem chainLink_undisturbed (calls : List ChainCall) (d : ChainLink) :
    (Run.run step d (calls.map ChainCall.undisturbed)).toChainDatagram =
      Run.run ChainDatagram.step d.toChainDatagram calls := by
  induction calls generalizing d with
  | nil => rfl
  | cons call calls ih => rw [map_cons, Run.run_cons, Run.run_cons, ih, step_undisturbed]

end Doradus.Chain
