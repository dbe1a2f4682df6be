import Doradus.Lib.Run
import Doradus.Protocol.UdpFrames

/-!
# The retry queue of a UDP-over-TCP chain

Every datagram that is sent enters a bounded queue, from which a reconnect replays it. It leaves
the queue when a reply is taken for its acknowledgement: one from its target, or one with its
payload. Requests that are not answered fill the queue, and then nothing more can be sent.
-/

namespace Doradus.Chain

open Yuubinsya (encodeUotFrame)

def maxUotRetryBytes : ℕ := 256 * 1024

def maxUotRetryFrames : ℕ := 128

structure PendingUotDatagram where
  id : ℕ
  target : Endpoint
  payload : Octets

structure RetryQueue where
  frames : List PendingUotDatagram
  bytes : ℕ

namespace RetryQueue

def new : RetryQueue := ⟨[], 0⟩

def push (q : RetryQueue) (frame : PendingUotDatagram) : Result RetryQueue :=
  if maxUotRetryBytes < frame.payload.length ∨ maxUotRetryFrames ≤ q.frames.length ∨
      maxUotRetryBytes < q.bytes + frame.payload.length then
    .error ⟨.timeout, "Yuubinsya UOT retry queue is full"⟩
  else .ok ⟨q.frames ++ [frame], q.bytes + frame.payload.length⟩

def remove (q : RetryQueue) (index : Option ℕ) : RetryQueue :=
  match index.bind fun i => q.frames[i]?.map (i, ·) with
  | none => q
  | some (i, frame) => ⟨q.frames.eraseIdx i, q.bytes - frame.payload.length⟩

def removeId (q : RetryQueue) (id : ℕ) : RetryQueue := q.remove (q.frames.findIdx? (·.id = id))

def acknowledge (q : RetryQueue) (source : Endpoint) (payload : Octets) : RetryQueue :=
  let exact := q.frames.findIdx? fun frame => frame.target = source && frame.payload = payload
  let target := q.frames.findIdx? (·.target = source)
  q.remove (exact.or (target.or (q.frames.findIdx? (·.payload = payload))))

def load (q : RetryQueue) : ℕ := (q.frames.map (·.payload.length)).sum

structure Accounted (q : RetryQueue) : Prop where
  bytes_eq : q.bytes = q.load
  bytes_le : q.bytes ≤ maxUotRetryBytes
  frames_le : q.frames.length ≤ maxUotRetryFrames

variable {q q' : RetryQueue} {frame : PendingUotDatagram}

theorem Accounted.new : RetryQueue.new.Accounted := ⟨rfl, Nat.zero_le _, Nat.zero_le _⟩

theorem Accounted.push (h : q.Accounted) (hp : q.push frame = .ok q') : q'.Accounted := by
  unfold RetryQueue.push at hp
  split_ifs at hp with hf
  cases hp
  push Not at hf
  have hb := h.bytes_eq
  refine ⟨?_, hf.2.2, ?_⟩
  · simp [load, hb]
  · simpa using hf.2.1

theorem Accounted.remove (h : q.Accounted) (n : Option ℕ) : (q.remove n).Accounted := by
  unfold RetryQueue.remove
  split
  · exact h
  next i frame hi =>
  obtain ⟨j, -, hj⟩ := Option.bind_eq_some_iff.mp hi
  obtain ⟨frame', hg, he⟩ := Option.map_eq_some_iff.mp hj
  cases he
  obtain ⟨hlt, rfl⟩ := List.getElem?_eq_some_iff.mp hg
  have hb := h.bytes_eq
  have hs := ((List.getElem_cons_eraseIdx_perm hlt).map (·.payload.length)).sum_eq
  have hl := h.bytes_le
  have hf := h.frames_le
  simp only [load, List.map_cons, List.sum_cons] at hb hs
  refine ⟨?_, ?_, ?_⟩
  · simp only [load]
    omega
  · dsimp only
    omega
  · simp only [List.length_eraseIdx, if_pos hlt]
    omega

end RetryQueue

/-- The closing flag, the retry ids and the queue of a `ChainDatagram` whose stream never fails. -/
structure ChainDatagram where
  closed : Bool
  nextRetryId : ℕ
  retry : RetryQueue

inductive ChainCall where
  | sendTo (payload : Octets) (target : Endpoint)
  /-- A reply comes in while `recv_from` waits with a buffer of the size. -/
  | recvFrom (source : Endpoint) (payload : Octets) (size : ℕ)
  | close

namespace ChainDatagram

def new : ChainDatagram := ⟨false, 1, .new⟩

def closedError : Error := ⟨.closed, "Yuubinsya UOT session is closed"⟩

def sendOnce (d : ChainDatagram) (target : Endpoint) (payload : Octets) : Result Unit :=
  if d.closed then .error closedError
  else do
    let _ ← encodeUotFrame target payload
    .ok ()

/-- `encode_uot_frame` only rejects its input. So a recoverable error means that the datagram is
closed, which `reconnect` finds too, and every error drops the retry. -/
def sendTo (d : ChainDatagram) (payload : Octets) (target : Endpoint) : Result ℕ × ChainDatagram :=
  let id := d.nextRetryId
  let d := { d with nextRetryId := id + 1 }
  match d.retry.push ⟨id, target, payload⟩ with
  | .error e => (.error e, d)
  | .ok retry =>
    match d.sendOnce target payload with
    | .error e => (.error e, { d with retry := retry.removeId id })
    | .ok () => (.ok payload.length, { d with retry := retry })

def recvFrom (d : ChainDatagram) (source : Endpoint) (payload : Octets) (size : ℕ) :
    Result (ℕ × Endpoint) × ChainDatagram :=
  if d.closed then (.error closedError, d)
  else if size < payload.length then
    (.error ⟨.invalidInput, "Yuubinsya UDP payload exceeds receive buffer"⟩, d)
  else (.ok (payload.length, source), { d with retry := d.retry.acknowledge source payload })

def step (d : ChainDatagram) : ChainCall → ChainDatagram
  | .sendTo payload target => (d.sendTo payload target).2
  | .recvFrom source payload size => (d.recvFrom source payload size).2
  | .close => { d with closed := true, retry := .new }

/-- The datagram is open and the call sends what can be encoded. -/
def Due (d : ChainDatagram) (payload : Octets) (target : Endpoint) : Prop :=
  d.closed = false ∧ ∃ frame, encodeUotFrame target payload = .ok frame

def Serves (d : ChainDatagram) : ChainCall → Prop
  | .sendTo payload target => d.Due payload target →
      (d.sendTo payload target).1 = .ok payload.length
  | _ => True

/-- What waits for an acknowledgement leaves room for a datagram that can be encoded. -/
def HasRoom (d : ChainDatagram) : ChainCall → Prop
  | .sendTo payload target => d.Due payload target → d.retry.frames.length < maxUotRetryFrames ∧
        d.retry.load + payload.length ≤ maxUotRetryBytes
  | _ => True

variable {d : ChainDatagram}

theorem accounted_step (h : d.retry.Accounted) (call : ChainCall) :
    (d.step call).retry.Accounted := by
  cases call with
  | sendTo =>
    simp only [step, sendTo]
    split
    · exact h
    next retry hp =>
    split
    · exact (h.push hp).remove _
    · exact h.push hp
  | recvFrom =>
    simp only [step, recvFrom]
    split_ifs
    · exact h
    · exact h
    · exact h.remove _
  | close => exact .new

theorem hasRoom_iff_serves (h : d.retry.Accounted) (call : ChainCall) :
    d.HasRoom call ↔ d.Serves call := by
  cases call with
  | sendTo p =>
    refine forall_congr' fun hd => ?_
    obtain ⟨hc, frame, hf⟩ := hd
    have hb := h.bytes_eq
    by_cases hfull : maxUotRetryBytes < p.length ∨ maxUotRetryFrames ≤ d.retry.frames.length ∨
        maxUotRetryBytes < d.retry.bytes + p.length
    · simp only [sendTo, RetryQueue.push, if_pos hfull]
      refine iff_of_false ?_ nofun
      omega
    · simp only [sendTo, RetryQueue.push, if_neg hfull, sendOnce, hc, hf]
      refine iff_of_true ?_ rfl
      omega
  | recvFrom | close => exact Iff.rfl

end ChainDatagram

open ChainDatagram in
/-- In every sequence of calls the byte counter is the sum of the queued payloads and both limits
are kept. What can be encoded is always sent if and only if the datagrams that wait for an
acknowledgement leave room for it. -/
theorem chainDatagram_serves_iff (calls : List ChainCall) :
    (Run.run step new calls).retry.Accounted ∧
      (Run.Meets step HasRoom new calls ↔ Run.Meets step Serves new calls) := by
  have hst : ∀ (d : ChainDatagram) (call : ChainCall), d.retry.Accounted →
      (d.step _).retry.Accounted := fun d call h => accounted_step h call
  exact ⟨Run.invariant_of_forall (P := fun d => d.retry.Accounted) step hst calls new .new,
    Run.meets_iff_meets step (fun d call h _ => hst d call h)
      (fun d call h => hasRoom_iff_serves h call) calls new .new⟩

def nameServer : Endpoint := .ip .udp (.v4 .localhost 53)

open ChainDatagram in
/-- After 128 requests without a reply the next one is refused. -/
theorem chainDatagram_refuses_after_silence :
    (let d := Run.run step new (List.replicate 128 (.sendTo [7] nameServer))
    d.closed = false ∧ (encodeUotFrame nameServer [7]).isOk = true ∧ (d.sendTo [7] nameServer).1 =
        .error ⟨.timeout, "Yuubinsya UOT retry queue is full"⟩) := by
  decide +kernel

end Doradus.Chain
