import Doradus.Lib.Run

/-!
# Failures of a DNS-over-QUIC client

The client keeps one endpoint over one `QuinnDatagram`, whose two workers stop
at their first failed send or receive, and one connection, which a failed query
drops. QUIC itself is left out: an exchange on a connection, or the handshake of
a new one, needs a datagram sent and a datagram received.
-/

namespace Doradus

namespace Doq

structure QuinnDatagram where
  sendClosed : Bool
  closed : Bool
  recvClosed : Bool
deriving DecidableEq, Repr

/-- What the underlying datagram does with the traffic of one exchange. -/
structure Traffic where
  sends : Bool
  receives : Bool
deriving DecidableEq, Repr

def Traffic.works (t : Traffic) : Bool := t.sends && t.receives

namespace QuinnDatagram

def new : QuinnDatagram := ⟨false, false, false⟩

def running (d : QuinnDatagram) : Bool := !d.sendClosed && !d.closed && !d.recvClosed

/-- `false` is the error `DoQ UDP sender closed`. -/
def trySend (d : QuinnDatagram) : Bool := !(d.sendClosed || d.closed)

def senderWorker (d : QuinnDatagram) (sends : Bool) : QuinnDatagram :=
  if sends then d else { d with sendClosed := true, closed := true }

def receiverWorker (d : QuinnDatagram) (receives : Bool) : QuinnDatagram :=
  if d.closed || !receives then { d with recvClosed := true } else d

def exchange (d : QuinnDatagram) (t : Traffic) : Bool × QuinnDatagram :=
  if d.trySend then
    let sent := d.senderWorker t.sends
    let received := if sent.recvClosed then sent else sent.receiverWorker t.receives
    (t.sends && !received.recvClosed, received)
  else (false, d)

theorem exchange_eq (d : QuinnDatagram) (t : Traffic) : (d.exchange t).1 = (d.running && t.works) ∧
      (d.exchange t).2.running = (d.running && t.works) := by
  obtain ⟨sendClosed, closed, recvClosed⟩ := d
  obtain ⟨sends, receives⟩ := t
  revert sendClosed closed recvClosed sends receives
  decide

end QuinnDatagram

open QuinnDatagram

structure DoqClient where
  endpoint : Option QuinnDatagram
  /-- The stored connection, and whether it is still open. -/
  connection : Option Bool
deriving DecidableEq, Repr

/-- A query, with whether the server resolves and a datagram opens for it and what becomes of its
traffic; traffic of the endpoint outside any query; or the end of the stored connection, by its
idle timeout or by the server. -/
inductive Input
  | query (opens : Bool) (t : Traffic)
  | idle (t : Traffic)
  | lose
deriving DecidableEq, Repr

namespace DoqClient

def new : DoqClient := ⟨none, none⟩

def endpointFor (c : DoqClient) (opens : Bool) : Option QuinnDatagram :=
  match c.endpoint with
  | some d => some d
  | none => if opens then some .new else none

/-- `connection`: the stored one, whatever has become of it, or a new one over the stored
endpoint, with a handshake; `none` is an error. -/
def connect (c : DoqClient) (opens : Bool) (t : Traffic) : Option Bool × DoqClient :=
  match c.connection with
  | some isOpen => (some isOpen, c)
  | none =>
    match c.endpointFor opens with
    | none => (none, c)
    | some d =>
      if (d.exchange t).1 then (some true, ⟨some (d.exchange t).2, some true⟩)
      else (none, ⟨some (d.exchange t).2, none⟩)

/-- `open_bi` fails on a connection that is not open. -/
def queryFrameOn (c : DoqClient) (isOpen : Bool) (t : Traffic) : Bool × DoqClient :=
  match isOpen, c.endpoint with
  | true, some d => ((d.exchange t).1, { c with endpoint := some (d.exchange t).2 })
  | _, _ => (false, c)

/-- A failed query drops the connection, never the endpoint. -/
def queryFrame (c : DoqClient) (opens : Bool) (t : Traffic) : Bool × DoqClient :=
  match c.connect opens t with
  | (none, c) => (false, c)
  | (some isOpen, c) =>
    let (answered, c) := c.queryFrameOn isOpen t
    (answered, if answered then c else { c with connection := none })

def step (c : DoqClient) : Input → DoqClient
  | .query opens t => (c.queryFrame opens t).2
  | .idle t => { c with endpoint := c.endpoint.map fun d => (d.exchange t).2 }
  | .lose => { c with connection := c.connection.map fun _ => false }

/-- The query has an endpoint, and no connection that has been lost. -/
def Sends (c : DoqClient) (opens : Bool) : Prop :=
  (c.endpoint.isSome ∨ opens = true) ∧ c.connection ≠ some false

/-- No send or receive fails in the step. -/
def Works (c : DoqClient) : Input → Prop
  | .query opens t => c.Sends opens → t.works = true
  | .idle t => c.endpoint.isSome → t.works = true
  | .lose => True

def Running (c : DoqClient) : Prop := ∀ d ∈ c.endpoint, d.running = true

/-- A connection is one of the stored endpoint. -/
def Coherent (c : DoqClient) : Prop := c.connection.isSome → c.endpoint.isSome

variable {c : DoqClient}

attribute [local simp] Sends Running Coherent endpointFor connect queryFrameOn queryFrame
  exchange_eq in
theorem queryFrame_spec (h : c.Coherent) (opens : Bool) (t : Traffic) :
    ((c.queryFrame opens t).1 = true ↔ c.Running ∧ c.Sends opens ∧ t.works = true) ∧
      ((c.queryFrame opens t).2.Running ↔ c.Running ∧ (c.Sends opens → t.works = true)) ∧
      (c.queryFrame opens t).2.Coherent := by
  obtain ⟨_ | d, _ | _ | _⟩ := c
  case none.none =>
    have hn : QuinnDatagram.new.running = true := rfl
    cases opens <;> cases hw : t.works <;> simp [hn, hw]
  case some.none | some.some.true =>
    cases hd : d.running <;> cases hw : t.works <;> simp [hd, hw]
  case some.some.false => simp
  all_goals simp at h

theorem Coherent.step (h : c.Coherent) (input : Input) : (c.step input).Coherent ∧
    ((c.step input).Running ↔ c.Running ∧ c.Works input) := by
  cases input with
  | query opens t =>
    obtain ⟨-, hr, hc⟩ := queryFrame_spec h opens t
    exact ⟨hc, hr⟩
  | idle t =>
    obtain ⟨_ | d, _⟩ := c
    · exact ⟨h, by simp [DoqClient.step, Running, Works]⟩
    · exact ⟨fun _ => rfl, by simp [DoqClient.step, Running, Works, exchange_eq]⟩
  | lose =>
    exact ⟨by simpa [Coherent, DoqClient.step] using h, by simp [DoqClient.step, Running, Works]⟩

/-- The workers run as long as every send and receive has worked. -/
theorem Coherent.run (h : c.Coherent) (inputs : List Input) :
    (Run.run DoqClient.step c inputs).Coherent ∧
      ((Run.run DoqClient.step c inputs).Running ↔
        c.Running ∧ Run.Meets DoqClient.step Works c inputs) := by
  induction inputs generalizing c with
  | nil => exact ⟨h, by simp [Run.Meets]⟩
  | cons input _ ih =>
    obtain ⟨hc, hr⟩ := h.step input
    refine ⟨(ih hc).1, (ih hc).2.trans ?_⟩
    rw [hr, and_assoc]
    rfl

end DoqClient

/-- A query of a client is answered exactly if no send or receive has failed since the client was
made, the query has an endpoint, its own traffic works, and the stored connection has not been
lost. -/
theorem doqClient_answers_iff (inputs : List Input) (opens : Bool) (t : Traffic) :
    let c := Run.run DoqClient.step .new inputs
    (c.queryFrame opens t).1 = true ↔
      Run.Meets DoqClient.step DoqClient.Works .new inputs ∧
        (c.endpoint.isSome ∨ opens = true) ∧ c.connection ≠ some false ∧ t.works = true := by
  intro c
  obtain ⟨hc, hr⟩ := DoqClient.Coherent.run (c := .new) nofun inputs
  rw [(DoqClient.queryFrame_spec hc opens t).1, hr.trans (and_iff_right nofun), DoqClient.Sends,
    and_assoc]

/-- One failed send, in the second query, and the client answers no more. A connection that was
closed while it was idle fails the next query, which is not sent. -/
theorem doqClient_stays_stopped :
    let works : Traffic := ⟨true, true⟩
    let client := Run.run DoqClient.step .new [.query true works, .query true ⟨false, true⟩]
    let lost := Run.run DoqClient.step .new [.query true works, .lose]
    (client.queryFrame true works).1 = false ∧
      ((client.step (.query true works)).queryFrame true works).1 = false ∧
      (lost.queryFrame true works).1 = false ∧
      ((lost.step (.query true works)).queryFrame true works).1 = true := by
  decide

/-! ### The end of the workers

A drop sets a flag and notifies those who wait; an error that ends a worker notifies nobody. -/

inductive SenderStage where
  | entering
  | waiting (notified : Bool)
  | sending
  | closing
  | ended
deriving DecidableEq

/-- `entering` has found the flag not set, and has not called `notified()` yet. -/
inductive ReceiverStage where
  | checking
  | entering
  | waiting (notified : Bool)
  | delivering
  | ended
deriving DecidableEq

/-- The workers over a datagram whose `close` ends its receives, or does nothing, as that of
`DirectDatagram`. -/
structure Workers where
  closes : Bool
  sender : SenderStage
  receiver : ReceiverStage
  queue : ℕ
  closed : Bool
  dropped : Bool
deriving DecidableEq

/-- The worker that goes on by itself. A sender `ends` if its send fails, or if `select!` takes the
notification where a packet is there as well. -/
inductive Worker where
  | sender (ends : Bool)
  | receiver

inductive Event where
  | poll (worker : Worker)
  | received (ok : Bool)
  | trySend
  | drop

namespace Workers

def new (closes : Bool) : Workers := ⟨closes, .entering, .checking, 0, false, false⟩

def poll (w : Workers) : Worker → Workers
  | .sender ends =>
    match w.sender with
    | .entering => { w with sender := .waiting false }
    | .waiting notified =>
      if notified && ends || w.dropped && w.queue = 0 then { w with sender := .closing }
      else if w.queue = 0 then w else { w with sender := .sending, queue := w.queue - 1 }
    | .sending => { w with sender := if ends then .closing else .entering }
    | .closing => { w with sender := .ended, closed := true }
    | .ended => w
  | .receiver =>
    match w.receiver with
    | .checking => { w with receiver := if w.closed then .ended else .entering }
    | .entering => { w with receiver := .waiting false }
    | .waiting notified =>
      -- the sender has closed the datagram before it ended
      if notified || w.closes && w.sender = .ended then { w with receiver := .ended } else w
    | .delivering => { w with receiver := if w.dropped then .ended else .checking }
    | .ended => w

/-- `notify_waiters` reaches those who wait. -/
def drop (w : Workers) : Workers :=
  { w with
    closed := true
    dropped := true
    sender := if w.sender = .waiting false then .waiting true else w.sender
    receiver := if w.receiver = .waiting false then .waiting true else w.receiver }

def step (w : Workers) : Event → Workers
  | .poll worker => w.poll worker
  | .received ok =>
    match w.receiver with
    | .waiting _ => { w with receiver := if ok then .delivering else .ended }
    | _ => w
  | .trySend => if w.dropped || w.closed then w else { w with queue := w.queue + 1 }
  | .drop => w.drop

/-- Only a datagram, or an error of it, makes the receiver go on. -/
def misses (w : Workers) : Bool := w.receiver = .entering || w.receiver = .waiting false

def toGo (w : Workers) : ℕ :=
  (match w.sender with
  | .ended => 0
  | .closing => 1
  | .waiting _ => 3 * w.queue + 2
  | .entering => 3 * w.queue + 3
  | .sending => 3 * w.queue + 4) +
  match w.receiver with
  | .ended => 0
  | .waiting _ => 1
  | .entering => 2
  | .checking => 3
  | .delivering => 4

/-- The flag is set, and the sender has ended or is going to. -/
structure Over (w : Workers) : Prop where
  closed : w.closed = true
  sender : w.dropped = true ∨ w.sender = .ended

variable {w : Workers}

attribute [local simp] poll toGo misses

theorem Over.poll (h : w.Over) (worker : Worker) (hne : w.poll worker ≠ w) :
    (w.poll worker).Over ∧ (w.closes = false → (w.poll worker).misses = w.misses) ∧
      (w.poll worker).closes = w.closes ∧ (w.poll worker).toGo < w.toGo := by
  obtain ⟨closes, sender, receiver, queue, closed, dropped⟩ := w
  obtain ⟨rfl, hs⟩ := h
  cases worker with
  | receiver =>
    cases receiver with
    | waiting notified =>
      simp only [Workers.poll] at hne ⊢
      split_ifs at hne ⊢ with hn
      · refine ⟨⟨rfl, hs⟩, fun hc => ?_, rfl, by simp⟩
        obtain rfl : closes = false := hc
        cases notified
        · simp at hn
        · rfl
      · exact absurd rfl hne
    | checking | entering => exact ⟨⟨rfl, hs⟩, by simp⟩
    | delivering => cases dropped <;> exact ⟨⟨rfl, hs⟩, by simp⟩
    | ended => exact absurd rfl hne
  | sender ends =>
    have hd : sender = .ended ∨ dropped = true := hs.symm
    cases sender with
    | waiting =>
      simp only [Workers.poll] at hne ⊢
      split_ifs at hne ⊢ with _ hq
      · exact ⟨⟨rfl, .inl (hd.resolve_left nofun)⟩, fun _ => rfl, rfl, by simp⟩
      · exact absurd rfl hne
      · exact ⟨⟨rfl, .inl (hd.resolve_left nofun)⟩, fun _ => rfl, rfl, by simp; omega⟩
    | entering | closing => exact ⟨⟨rfl, .inl (hd.resolve_left nofun)⟩, fun _ => rfl, rfl, by simp⟩
    | sending =>
      cases ends <;> exact ⟨⟨rfl, .inl (hd.resolve_left nofun)⟩, fun _ => rfl, rfl, by simp⟩
    | ended => exact absurd rfl hne

structure Coherent (closes : Bool) (w : Workers) : Prop where
  closes : w.closes = closes
  closed : w.sender = .ended → w.closed = true
  notified : w.dropped = false → w.sender ≠ .waiting true

theorem Coherent.step {closes : Bool} (h : w.Coherent closes) (event : Event) :
    (w.step event).Coherent closes := by
  obtain ⟨hc, hcl, hn⟩ := h
  cases event with
  | poll worker =>
    cases worker with
    | receiver =>
      simp only [Workers.step, poll]
      split <;> try split_ifs
      all_goals exact ⟨hc, hcl, hn⟩
    | sender ends =>
      simp only [Workers.step, poll]
      split <;> try split_ifs
      all_goals first | exact ⟨hc, hcl, hn⟩ | exact ⟨hc, by simp, by simp⟩
  | received ok =>
    simp only [Workers.step]
    split <;> exact ⟨hc, hcl, hn⟩
  | trySend =>
    simp only [Workers.step]
    split_ifs <;> exact ⟨hc, hcl, hn⟩
  | drop => exact ⟨hc, fun _ => rfl, nofun⟩

end Workers

end Doq

end Doradus
