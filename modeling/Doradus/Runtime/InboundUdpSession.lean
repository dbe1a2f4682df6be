import Doradus.Protocol.UotServer

/-!
# The session loop of framed UDP inbounds

`InboundUdpSession::run` waits at once for a request, a reply, an event of a flow, a close
request and the drain timer. Whichever of the others completes first drops `codec.recv()`,
and the next round starts a new one. A reply is sent before the loop goes on. Each step is
one wake-up, with what the environment decides.
-/

namespace Doradus

open FrameReader

structure InboundUdpFlowId where
  peer : SocketAddr
  target : Endpoint
  authentication : Option (Vector UInt8 32)
  deriving DecidableEq

structure InboundUdpRequest where
  id : InboundUdpFlowId
  peer : Endpoint
  target : Endpoint
  payload : Octets
  deriving DecidableEq

namespace Trojan

structure UdpServer where
  peer : SocketAddr
  bufferSize : ℕ

namespace UdpServer

def packetSize (server : UdpServer) : ℕ := max server.bufferSize 512

def request (server : UdpServer) (target : Endpoint) (payload : Octets) : InboundUdpRequest where
  id := ⟨server.peer, target, none⟩
  peer := .ip .udp server.peer
  target := target
  payload := payload

def recv (server : UdpServer) : Reading Error (Option InboundUdpRequest) := do
  let (payload, target) ← readUdpFrame server.packetSize
  pure (some (server.request target payload))

def ofFrame (server : UdpServer) (frame : UdpFrame) : InboundUdpRequest :=
  server.request frame.target frame.payload

theorem recv_reads (sr : UdpServer) {frames : List UdpFrame}
    (h : ∀ fr ∈ frames, fr.payload.length ≤ sr.packetSize) :
    FrameInput.Reads sr.recv wire (fun fr => some (sr.ofFrame fr)) frames := by
  refine ⟨⟨1, _, rfl⟩, fun fr hf => ?_⟩
  unfold recv
  rw [Reading.feed_bind (feed_readUdpFrame sr.packetSize fr)]
  rw [List.take_of_length_le (h fr hf)]
  rfl

end UdpServer

end Trojan

inductive InboundUdpSessionEvent where
  | flowOpened (flow : FlowKey)
  | flowClosed (flow : FlowKey)

/-- `ConnectionMonitor::close_requested`, at the time of a step. -/
abbrev ConnectionMonitor := FlowKey → Bool

inductive CloseEvent where
  | flow (flow : FlowKey)
  | lagged
  | closed

inductive UdpDispatchResult where
  | accepted
  | dropped
  | closed

structure UdpSessionFlow where
  closeOnEnd : Bool
  active : Option FlowKey

namespace UdpSessionFlow

def owns (scope : UdpSessionFlow) (flow : FlowKey) : Bool :=
  scope.closeOnEnd && scope.active == some flow

def closeRequested (scope : UdpSessionFlow) (monitor : ConnectionMonitor) : Bool :=
  scope.active.any monitor

/-- Whether the event ends the session, and the flow that is active then. -/
def onEvent (scope : UdpSessionFlow) (monitor : ConnectionMonitor)
    (event : InboundUdpSessionEvent) : Bool × UdpSessionFlow :=
  if !scope.closeOnEnd then (false, scope)
  else match event with
    | .flowOpened flow => (monitor flow, { scope with active := some flow })
    | .flowClosed flow => (scope.owns flow, scope)

/-- Whether a close request ends the session. After missed requests the monitor tells. -/
def onClose (scope : UdpSessionFlow) (monitor : ConnectionMonitor) : CloseEvent → Bool
  | .flow flow => scope.owns flow
  | .lagged => scope.closeRequested monitor
  | .closed => true

end UdpSessionFlow

structure InboundUdpSession where
  input : FrameInput
  scope : UdpSessionFlow
  inputClosed : Bool
  pendingPackets : ℕ
  replying : Bool
  dispatched : List InboundUdpRequest
  ended : Option SessionEnd

inductive UdpSessionInput where
  | arrive (count : ℕ)
  | recv (answer : UdpDispatchResult)
  | eof
  | reply (monitor : ConnectionMonitor)
  | sent (result : Result Unit)
  | event (event : InboundUdpSessionEvent) (monitor : ConnectionMonitor)
  | close (event : CloseEvent) (monitor : ConnectionMonitor)
  | drain

namespace InboundUdpSession

def new (closeOnEnd : Bool) (octets : Octets) : InboundUdpSession where
  input := .new octets
  scope := ⟨closeOnEnd, none⟩
  inputClosed := false
  pendingPackets := 0
  replying := false
  dispatched := []
  ended := none

def finishIf (stop : Bool) (s : InboundUdpSession) : InboundUdpSession :=
  if stop then { s with ended := some .finished } else s

/-- `codec.recv()` is polled; a request goes to the manager, which gives `answer`. -/
def recv (codec : Reading Error (Option InboundUdpRequest)) (answer : UdpDispatchResult)
    (s : InboundUdpSession) : InboundUdpSession :=
  match s.input.poll codec with
  | (none, input) => { s with input := input }
  | (some (.error e), input) => { s with input := input, ended := some (.unreadable e) }
  | (some (.ok none), input) =>
    { s with input := input, inputClosed := true }.finishIf (s.pendingPackets == 0)
  | (some (.ok (some request)), input) =>
    let s := { s with input := input, dispatched := s.dispatched ++ [request] }
    match answer with
    | .accepted => { s with pendingPackets := s.pendingPackets + 1 }
    | .dropped => s
    | .closed => s.finishIf true

def dropRecv (s : InboundUdpSession) : InboundUdpSession := { s with input := s.input.cancel }

def select (codec : Reading Error (Option InboundUdpRequest)) (s : InboundUdpSession) :
    UdpSessionInput → InboundUdpSession
  | .recv answer => if s.inputClosed then s else s.recv codec answer
  | .eof =>
    if s.inputClosed ∨ s.input.network ≠ [] ∨ s.input.socket ≠ [] then s
    else { s with ended := some .unexpectedEof }
  | .reply monitor =>
    { s.dropRecv with
      pendingPackets := s.pendingPackets - 1
      replying := true }.finishIf (s.scope.closeRequested monitor)
  | .event event monitor =>
    let (stop, scope) := s.scope.onEvent monitor event
    { s.dropRecv with scope := scope }.finishIf stop
  | .close event monitor => s.dropRecv.finishIf (s.scope.onClose monitor event)
  | .drain => s.finishIf s.inputClosed
  | .arrive _ | .sent _ => s

/-- A wake-up of the `select!` in `send_session_reply`, while a reply is being sent. -/
def sendSessionReply (s : InboundUdpSession) : UdpSessionInput → InboundUdpSession
  | .sent (.ok ()) => { s with replying := false }.finishIf (s.inputClosed && s.pendingPackets == 0)
  | .sent (.error e) => { s with ended := some (.failed e) }
  | .event event monitor =>
    if !s.scope.closeOnEnd then s
    else
      let (stop, scope) := s.scope.onEvent monitor event
      { s with scope := scope }.finishIf (stop || scope.closeRequested monitor)
  | .close event monitor =>
    if !s.scope.closeOnEnd then s
    else s.finishIf (s.scope.onClose monitor event || s.scope.closeRequested monitor)
  | .arrive _ | .recv _ | .eof | .reply _ | .drain => s

def step (codec : Reading Error (Option InboundUdpRequest)) (s : InboundUdpSession) :
    UdpSessionInput → InboundUdpSession
  | .arrive count => { s with input := s.input.arrive count }
  | a =>
    if s.ended.isSome then s
    else if s.replying then s.sendSessionReply a
    else s.select codec a

/-- A branch that wins against `codec.recv()` meets no frame half read. -/
def KeepsFrame (s : InboundUdpSession) : UdpSessionInput → Prop
  | .reply _ | .event _ _ | .close _ _ => s.input.held = []
  | .arrive _ | .recv _ | .eof | .sent _ | .drain => True

instance (s : InboundUdpSession) : (a : UdpSessionInput) → Decidable (s.KeepsFrame a)
  | .reply _ | .event _ _ | .close _ _ => inferInstanceAs (Decidable (s.input.held = []))
  | .arrive _ | .recv _ | .eof | .sent _ | .drain => .isTrue trivial

variable {φ : Type} {encode : φ → Octets} {request : φ → InboundUdpRequest} {frames : List φ}

/-- The loop is between frames or inside one, and has not rejected the stream. -/
structure Framed (encode : φ → Octets) (request : φ → InboundUdpRequest) (frames : List φ)
    (s : InboundUdpSession) : Prop where
  inStep : s.input.InStep encode request frames s.dispatched
  readable : ∀ e, s.ended ≠ some (.unreadable e)

variable {s : InboundUdpSession} {codec : Reading Error (Option InboundUdpRequest)}

theorem framed_new (c : Bool)
    (hcodec : FrameInput.Reads codec encode (fun fr => some (request fr)) frames) :
    (new c (frames.map encode).flatten).Framed encode request frames :=
  ⟨.new hcodec, nofun⟩

theorem Framed.finishIf (h : s.Framed encode request frames) (stop : Bool) :
    (s.finishIf stop).Framed encode request frames := by
  unfold InboundUdpSession.finishIf
  split_ifs
  · exact ⟨h.inStep, nofun⟩
  · exact h

theorem dropRecv_eq_self (h : s.input.held = []) : s.dropRecv = s := by
  rw [dropRecv, FrameInput.cancel_eq_self h]

theorem Framed.sendSessionReply (h : s.Framed encode request frames) (a : UdpSessionInput) :
    (s.sendSessionReply a).Framed encode request frames := by
  cases a with
  | sent r =>
    cases r with
    | ok =>
      apply Framed.finishIf
      exact ⟨h.inStep, h.readable⟩
    | error => exact ⟨h.inStep, nofun⟩
  | event =>
    rw [InboundUdpSession.sendSessionReply]
    split_ifs
    · exact h
    · apply Framed.finishIf
      exact ⟨h.inStep, h.readable⟩
  | close =>
    rw [InboundUdpSession.sendSessionReply]
    split_ifs
    · exact h
    · exact h.finishIf _
  | arrive | recv | eof | reply | drain => exact h

variable (hcodec : FrameInput.Reads codec encode (fun frame => some (request frame)) frames)

include hcodec

variable (h : s.Framed encode request frames) {a : UdpSessionInput}
include h

theorem Framed.recv (a : UdpDispatchResult) : (s.recv codec a).Framed encode request frames := by
  have hp := h.inStep.poll hcodec
  unfold InboundUdpSession.recv
  generalize s.input.poll codec = polled at hp ⊢
  obtain ⟨r, inp⟩ := polled
  rcases hp with ⟨fr, -, rfl, hi⟩ | ⟨rfl, hi⟩
  · cases a with
    | accepted | dropped => exact ⟨hi, h.readable⟩
    | closed => exact ⟨hi, nofun⟩
  · exact ⟨hi, h.readable⟩

theorem Framed.select (ha : s.KeepsFrame a) : (s.select codec a).Framed encode request frames := by
  cases a with
  | recv an =>
    rw [InboundUdpSession.select]
    split_ifs
    · exact h
    · exact h.recv hcodec an
  | eof =>
    rw [InboundUdpSession.select]
    split_ifs
    · exact h
    · exact ⟨h.inStep, nofun⟩
  | reply | event =>
    rw [InboundUdpSession.select, dropRecv_eq_self ha]
    apply Framed.finishIf
    exact ⟨h.inStep, h.readable⟩
  | close =>
    rw [InboundUdpSession.select, dropRecv_eq_self ha]
    exact h.finishIf _
  | drain => exact h.finishIf _
  | arrive | sent => exact h

theorem Framed.step (ha : s.KeepsFrame a) : (s.step codec a).Framed encode request frames := by
  unfold InboundUdpSession.step
  split
  · exact ⟨h.inStep.arrive _, h.readable⟩
  split_ifs
  · exact h
  · exact h.sendSessionReply a
  · exact h.select hcodec ha

end InboundUdpSession

/-- Both session loops dispatch exactly the frames of the stream: every request so far is
the next frame's, the stream is never rejected, and when all of it has arrived and has been
read all of its frames have been dispatched. -/
theorem inboundUdpSessions_dispatch_frames (frames : List UdpFrame) :
    (∀ (server : Trojan.UdpServer) (inputs : List UdpSessionInput),
      (∀ frame ∈ frames, frame.payload.length ≤ server.packetSize) →
      Run.Meets (InboundUdpSession.step server.recv) InboundUdpSession.KeepsFrame
        (.new false (frames.map Trojan.wire).flatten) inputs →
      let s := Run.run (InboundUdpSession.step server.recv)
        (.new false (frames.map Trojan.wire).flatten) inputs
      s.input.Exact (frames.map server.ofFrame) s.dispatched ∧
        ∀ e, s.ended ≠ some (.unreadable e)) ∧
    ∀ (shouldHijack : Option UInt16 → Octets → Bool) (inputs : List Yuubinsya.UotInput),
      Run.Meets (Yuubinsya.UotServer.step shouldHijack) Yuubinsya.UotServer.KeepsFrame
        (.new (frames.map Yuubinsya.wire).flatten) inputs →
      let s := Run.run (Yuubinsya.UotServer.step shouldHijack)
        (.new (frames.map Yuubinsya.wire).flatten) inputs
      s.input.Exact (frames.map Yuubinsya.datagram) s.dispatched ∧
        ∀ e, s.ended ≠ some (.unreadable e) := by
  constructor
  · intro server inputs hft hm
    have hcodec := server.recv_reads hft
    have hf := Run.invariant _ (fun s a hs ha => hs.step hcodec ha) inputs _
      (InboundUdpSession.framed_new false hcodec) hm
    exact ⟨hf.inStep.exact, hf.readable⟩
  · intro shouldHijack inputs hm
    have hf := Run.invariant _ (fun s a hs ha => hs.step shouldHijack ha) inputs _
      (Yuubinsya.UotServer.framed_new frames) hm
    exact ⟨hf.inStep.exact, hf.readable⟩

def localDatagram (payload : Octets) (h : payload.length < 2 ^ 16) : UdpFrame where
  address := [1, 127, 0, 0, 1, 0, 53]
  target := .ip .udp (.v4 .localhost 53)
  payload := payload
  decodes := by decide +kernel
  payload_lt := h

def exampleFrames : List UdpFrame :=
  [localDatagram [7, 8, 9] (by decide), localDatagram [] (by decide)]

def exampleServer (bufferSize : ℕ) : Trojan.UdpServer := ⟨.v4 ⟨#v[192, 0, 2, 1]⟩ 40000, bufferSize⟩

def exampleCalls : Yuubinsya.FrameCalls := ⟨.ok none, .ok (), .ok (), .ok ()⟩

/-- Frames in pieces, with replies and close requests between them. -/
theorem inboundUdpSessions_dispatch_pieces :
    ((Run.run (InboundUdpSession.step (exampleServer 2048).recv)
      (.new false (exampleFrames.map Trojan.wire).flatten)
      [.arrive 5, .recv .accepted, .arrive 11, .recv .accepted, .close .lagged fun _ => false,
        .arrive 9, .recv .dropped, .reply fun _ => false, .sent (.ok ())]).dispatched =
      exampleFrames.map (exampleServer 2048).ofFrame) ∧
    (Run.run (Yuubinsya.UotServer.step fun _ _ => false)
      (.new (exampleFrames.map Yuubinsya.wire).flatten)
      [.arrive 2, .recv exampleCalls, .arrive 10, .recv exampleCalls,
        .response (.data (.ok ())), .arrive 20, .recv exampleCalls]).dispatched =
      exampleFrames.map Yuubinsya.datagram := by
  constructor
  · exact ((inboundUdpSessions_dispatch_frames _).1 (exampleServer 2048) _
      (by decide +kernel) (by decide +kernel)).1.complete (by decide +kernel) (by decide +kernel)
  · exact ((inboundUdpSessions_dispatch_frames _).2 (fun _ _ => false) _
      (by decide +kernel)).1.complete (by decide +kernel) (by decide +kernel)

/-- A reply that comes while a frame is half read costs its first octets: the rest is read
as the start of a frame, and the session ends. A payload longer than the buffer is cut. -/
theorem inboundUdpSessions_reply_inside_frame :
    (let s := Run.run (InboundUdpSession.step (exampleServer 2048).recv)
      (.new false (exampleFrames.map Trojan.wire).flatten)
      [.arrive 2, .recv .accepted, .reply fun _ => false, .sent (.ok ()), .arrive 23,
        .recv .accepted]
    s.dispatched = [] ∧ s.ended = some (.unreadable ⟨.protocol, "unknown Trojan address type"⟩)) ∧
    (let s := Run.run (Yuubinsya.UotServer.step fun _ _ => false)
      (.new (exampleFrames.map Yuubinsya.wire).flatten)
      [.arrive 14, .recv exampleCalls, .recv exampleCalls, .response (.data (.ok ())),
        .arrive 7, .recv exampleCalls]
    s.dispatched = (exampleFrames.take 1).map Yuubinsya.datagram ∧
      s.ended = some (.unreadable ⟨.protocol, "unknown Yuubinsya UOT address type"⟩)) ∧
    (Run.run (InboundUdpSession.step (exampleServer 0).recv)
      (.new false (Trojan.wire (localDatagram (List.replicate 513 7) (by decide +kernel))))
      [.arrive 1000, .recv .accepted]).dispatched.map (fun r => r.payload.length) = [512] := by
  decide +kernel

end Doradus
