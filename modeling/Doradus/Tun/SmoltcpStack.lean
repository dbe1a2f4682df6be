import Doradus.Lib.AssocMap
import Doradus.Lib.Polled
import Doradus.Lib.Run
import Doradus.Tun.Packet
import Doradus.Types.Net

/-!
# The userspace IP stack of the outbound adapters

A session couples an endpoint that other tasks use with a socket that the driver
of the stack polls. Commands travel through a bounded channel. `process_sessions`
takes them out one by one, while the endpoint may go on sending, and then works on
the socket. The sockets belong to the network side: of a TCP socket a session sees
its state, the room in its send buffer and what it has received.
-/

namespace Doradus

open AssocMap

def socketBufferSize : ℕ := 64 * 1024
def maxStreamOutputBytes : ℕ := socketBufferSize * 4
def portMin : UInt16 := 32768
def portMax : UInt16 := 60000
def commandCapacity : ℕ := 64
def outputCapacity : ℕ := 64

/-- The states of a TCP socket, by what is left to do: the transmit half opens with
`established` and is closed from `finishing` on. -/
inductive TcpState where
  | synSent
  | established
  | finishing
  | closed
  deriving DecidableEq

def TcpState.rank : TcpState → ℕ
  | .synSent => 0
  | .established => 1
  | .finishing => 2
  | .closed => 3

structure TcpSocket where
  state : TcpState
  room : ℕ
  received : Octets

namespace TcpSocket

def close (socket : TcpSocket) : TcpSocket :=
  match socket.state with
  | .synSent => { socket with state := .closed }
  | .established => { socket with state := .finishing }
  | _ => socket

def canSend (socket : TcpSocket) : Bool := socket.state = .established ∧ 0 < socket.room

/-- The number of octets taken; `none` is an error. -/
def sendSlice (socket : TcpSocket) (data : Octets) : Option ℕ × TcpSocket :=
  if socket.state = .established then
    (some (min socket.room data.length), { socket with room := socket.room - data.length })
  else (none, socket)

def canRecv (socket : TcpSocket) : Bool := !socket.received.isEmpty

/-- The network changes the socket; it does not open the transmit half again. -/
def network (socket : TcpSocket) (state : TcpState) (room : ℕ) (data : Octets) : TcpSocket :=
  if socket.state.rank ≤ state.rank then ⟨state, room, socket.received ++ data⟩ else socket

end TcpSocket

inductive StackCommand where
  | write (data : Octets)
  | close
  deriving DecidableEq

inductive StreamEvent where
  | accepted (data : Octets)
  | shutdown
  | passed (data : Octets)
  | closed
  deriving DecidableEq

/-- A TCP session with its `SmoltcpStream`, the two channels between them and its
socket. -/
structure TcpSession where
  localPort : UInt16
  destination : SocketAddr
  pendingWrite : Option Octets
  shutdownSent : Bool
  pendingRead : Octets
  streamDropped : Bool
  commandRx : List StackCommand
  outputRx : List Octets
  pendingWrites : List Octets
  pendingOutput : List Octets
  pendingOutputBytes : ℕ
  closeRequested : Bool
  socket : TcpSocket
  log : List StreamEvent

namespace TcpSession

def opened (localPort : UInt16) (destination : SocketAddr) : TcpSession where
  localPort := localPort
  destination := destination
  pendingWrite := none
  shutdownSent := false
  pendingRead := []
  streamDropped := false
  commandRx := []
  outputRx := []
  pendingWrites := []
  pendingOutput := []
  pendingOutputBytes := 0
  closeRequested := false
  socket := ⟨.synSent, socketBufferSize, []⟩
  log := []

/-- The payload that the pending future carries is that of the call that made it. -/
def pollWrite (s : TcpSession) (data : Octets) : Poll ℕ × TcpSession :=
  let payload := s.pendingWrite.getD data
  if s.commandRx.length < commandCapacity then
    (.ready data.length, { s with
        pendingWrite := none
        commandRx := s.commandRx ++ [.write payload]
        log := s.log ++ [.accepted data] })
  else (.pending, { s with pendingWrite := some payload })

/-- A slot that becomes free is kept for the pending write, so `try_send` needs one
more. -/
def hasSlot (s : TcpSession) : Bool :=
  s.commandRx.length + s.pendingWrite.toList.length < commandCapacity

def pollShutdown (s : TcpSession) : TcpSession :=
  if s.shutdownSent then s
  else
    { s with
      shutdownSent := true
      commandRx := if s.hasSlot then s.commandRx ++ [.close] else s.commandRx
      log := s.log ++ [.shutdown] }

def pollRead (s : TcpSession) (remaining : ℕ) : Poll Octets × TcpSession :=
  if s.pendingRead ≠ [] then
    (.ready (s.pendingRead.take remaining), { s with pendingRead := s.pendingRead.drop remaining })
  else
    match s.outputRx with
    | data :: rest =>
      (.ready (data.take remaining),
        { s with outputRx := rest, pendingRead := data.drop remaining })
    | [] => (.pending, s)

/-- The loop over `pending_writes`: every round takes a payload or leaves no room. -/
def pushWrites : ℕ → TcpSession → TcpSession
  | 0, s => s
  | rounds + 1, s =>
    if s.socket.canSend then
      match s.pendingWrites with
      | [] => s
      | data :: rest =>
        match s.socket.sendSlice data with
        | (some written, socket) =>
          let s := { s with
            socket := socket
            pendingWrites := rest
            log := s.log ++ [StreamEvent.passed (data.take written)] }
          if written < data.length then
            pushWrites rounds { s with pendingWrites := data.drop written :: rest }
          else pushWrites rounds s
        | (none, socket) => { s with socket := socket, pendingWrites := data :: rest }
    else s

def flushOutput : ℕ → TcpSession → TcpSession
  | 0, s => s
  | rounds + 1, s =>
    match s.pendingOutput with
    | [] => s
    | data :: rest =>
      if s.streamDropped then
        { s with closeRequested := true, pendingOutput := [], pendingOutputBytes := 0 }
      else if s.outputRx.length < outputCapacity then
        flushOutput rounds { s with
          pendingOutput := rest
          pendingOutputBytes := s.pendingOutputBytes - data.length
          outputRx := s.outputRx ++ [data] }
      else s

def receive (mtu : ℕ) (s : TcpSession) : TcpSession :=
  if s.socket.canRecv ∧ s.closeRequested = false then
    let length := min socketBufferSize (mtu * 8)
    let data := s.socket.received.take length
    let s := { s with socket := { s.socket with received := s.socket.received.drop length } }
    if s.streamDropped then { s with closeRequested := true }
    else if s.outputRx.length < outputCapacity then { s with outputRx := s.outputRx ++ [data] }
    else if maxStreamOutputBytes < s.pendingOutputBytes + data.length then
      { s with closeRequested := true, pendingOutput := [], pendingOutputBytes := 0 }
    else
      { s with
        pendingOutputBytes := s.pendingOutputBytes + data.length
        pendingOutput := s.pendingOutput ++ [data] }
  else s

def closeSocket (s : TcpSession) : TcpSession :=
  if s.closeRequested then { s with socket := s.socket.close, log := s.log ++ [.closed] } else s

/-- What `process_sessions` does with the session once its channel is empty; `none`
removes it. -/
def processSocket (mtu : ℕ) (s : TcpSession) : Option TcpSession :=
  let s := s.closeSocket
  let s := pushWrites s.pendingWrites.length s
  let s := flushOutput s.pendingOutput.length s
  let s := receive mtu s
  if s.socket.state = .closed ∧ s.pendingWrites = [] ∧ s.pendingOutput = [] then none else some s

def process (mtu : ℕ) (s : TcpSession) : Option TcpSession :=
  match s.commandRx with
  | .write data :: rest =>
    some { s with commandRx := rest, pendingWrites := s.pendingWrites ++ [data] }
  | .close :: rest => some { s with commandRx := rest, closeRequested := true }
  | [] => s.processSocket mtu

end TcpSession

inductive TcpAction where
  | pollWrite (data : Octets)
  | pollShutdown
  | pollRead (remaining : ℕ)
  | dropStream
  | network (state : TcpState) (room : ℕ) (data : Octets)
  | process

def TcpSession.step (mtu : ℕ) (s : TcpSession) : TcpAction → Option TcpSession
  | .pollWrite data => some (if s.streamDropped then s else (s.pollWrite data).2)
  | .pollShutdown => some (if s.streamDropped then s else s.pollShutdown)
  | .pollRead remaining => some (if s.streamDropped then s else (s.pollRead remaining).2)
  | .dropStream => some { s with streamDropped := true }
  | .network state room data => some { s with socket := s.socket.network state room data }
  | .process => s.process mtu

structure Datagram where
  payload : Octets
  source : SocketAddr
  deriving DecidableEq

inductive DatagramCommand where
  | send (payload : Octets) (target : SocketAddr)
  | recv (call : ℕ)
  | close
  deriving DecidableEq

/-- How far a call of `recv_from` has come: its command waits for a slot in the channel,
it waits for the reply, the reply is there, or the call has ended. -/
inductive RecvCall where
  | sending
  | waiting
  | replied (datagram : Datagram)
  | returned (datagram : Datagram)
  | failed
  | cancelled
  deriving DecidableEq

/-- A UDP session with its `SmoltcpDatagram`, the calls of `recv_from` and what its
socket has received. `receiving` says that the pass has come to the socket. -/
structure UdpSession where
  localPort : UInt16
  commandRx : List DatagramCommand
  pendingRecv : Option ℕ
  queuedRecv : List Datagram
  calls : AssocMap ℕ RecvCall
  received : List Datagram
  receiving : Bool
  read : List Datagram

namespace UdpSession

def opened (localPort : UInt16) : UdpSession := ⟨localPort, [], none, [], ∅, [], false, []⟩

/-- `command_tx.send`: the command, if there is a slot. -/
def trySend (s : UdpSession) (command : DatagramCommand) : Option UdpSession :=
  if s.commandRx.length < commandCapacity then
    some { s with commandRx := s.commandRx ++ [command] }
  else none

def withCall (s : UdpSession) (call : ℕ) (state : RecvCall) : UdpSession :=
  { s with calls := s.calls.insert call state }

def sendRecv (s : UdpSession) (call : ℕ) : UdpSession :=
  match s.trySend (.recv call) with
  | some s => s.withCall call .waiting
  | none => s.withCall call .sending

def pollRecv (s : UdpSession) (call : ℕ) (bufferLength : ℕ) : UdpSession :=
  match s.calls.get? call with
  | none => s.sendRecv call
  | some .sending => s.sendRecv call
  | some (.replied datagram) =>
    if bufferLength < datagram.payload.length then s.withCall call .failed
    else s.withCall call (.returned datagram)
  | _ => s

/-- The future of the call is dropped, its receiver with it. -/
def cancel (s : UdpSession) (call : ℕ) : UdpSession :=
  match s.calls.get? call with
  | some .sending => s.withCall call .cancelled
  | some .waiting => s.withCall call .cancelled
  | some (.replied _) => s.withCall call .cancelled
  | _ => s

/-- `reply.send`; the result is ignored, and with it the datagram if nobody waits. -/
def reply (s : UdpSession) (call : ℕ) (datagram : Datagram) : UdpSession :=
  if s.calls.get? call = some .waiting then s.withCall call (.replied datagram) else s

def dropPending (s : UdpSession) : UdpSession :=
  match s.pendingRecv with
  | some call =>
    if s.calls.get? call = some .waiting then s.withCall call .failed else s
  | none => s

def processRecv (s : UdpSession) (call : ℕ) : UdpSession :=
  match s.queuedRecv with
  | datagram :: rest => { s with queuedRecv := rest }.reply call datagram
  | [] => { s.dropPending with pendingRecv := some call }

def receiveDatagram (s : UdpSession) (datagram : Datagram) : UdpSession :=
  match s.pendingRecv with
  | some call => { s with pendingRecv := none }.reply call datagram
  | none => { s with queuedRecv := s.queuedRecv ++ [datagram] }

def process (s : UdpSession) : Option UdpSession :=
  if s.receiving then
    match s.received with
    | datagram :: rest =>
      some ({ s with received := rest, read := s.read ++ [datagram] }.receiveDatagram datagram)
    | [] => some { s with receiving := false }
  else
    match s.commandRx with
    | .send _ _ :: rest => some { s with commandRx := rest }
    | .recv call :: rest => some ({ s with commandRx := rest }.processRecv call)
    | .close :: _ => none
    | [] => some { s with receiving := true }

end UdpSession

inductive UdpAction where
  | arrive (datagram : Datagram)
  | sendTo (payload : Octets) (target : SocketAddr)
  | pollRecv (call : ℕ) (bufferLength : ℕ)
  | cancel (call : ℕ)
  | close
  | process

def UdpSession.step (s : UdpSession) : UdpAction → Option UdpSession
  | .arrive datagram => some { s with received := s.received ++ [datagram] }
  | .sendTo payload target => some ((s.trySend (.send payload target)).getD s)
  | .pollRecv call bufferLength => some (s.pollRecv call bufferLength)
  | .cancel call => some (s.cancel call)
  | .close => some ((s.trySend .close).getD s)
  | .process => s.process

abbrev SocketHandle := ℕ

structure SmoltcpStack where
  mtu : ℕ
  nextPort : UInt16
  tcpSessions : AssocMap SocketHandle TcpSession
  udpSessions : AssocMap SocketHandle UdpSession

inductive StackAction where
  | openTcp (handle : SocketHandle) (destination : SocketAddr) (connects : Bool)
  | openUdp (handle : SocketHandle)
  | tcp (handle : SocketHandle) (action : TcpAction)
  | udp (handle : SocketHandle) (action : UdpAction)

namespace SmoltcpStack

def new (mtu : ℕ) : SmoltcpStack := ⟨mtu, portMin, ∅, ∅⟩

def allocatePort (s : SmoltcpStack) : UInt16 × SmoltcpStack :=
  (s.nextPort, { s with nextPort := if portMax ≤ s.nextPort then portMin else s.nextPort + 1 })

/-- The socket set hands out a handle that is not in use. -/
def isFree (s : SmoltcpStack) (handle : SocketHandle) : Bool :=
  !s.tcpSessions.contains handle && !s.udpSessions.contains handle

def openTcp (s : SmoltcpStack) (handle : SocketHandle) (destination : SocketAddr)
    (connects : Bool) : SmoltcpStack :=
  let (localPort, s) := s.allocatePort
  if connects then
    { s with tcpSessions := s.tcpSessions.insert handle (.opened localPort destination) }
  else s

def openUdp (s : SmoltcpStack) (handle : SocketHandle) : SmoltcpStack :=
  let (localPort, s) := s.allocatePort
  { s with udpSessions := s.udpSessions.insert handle (.opened localPort) }

def step (s : SmoltcpStack) : StackAction → SmoltcpStack
  | .openTcp handle destination connects =>
    if s.isFree handle then s.openTcp handle destination connects else s
  | .openUdp handle => if s.isFree handle then s.openUdp handle else s
  | .tcp handle action =>
    match s.tcpSessions.get? handle with
    | none => s
    | some session =>
      match session.step s.mtu action with
      | some session => { s with tcpSessions := s.tcpSessions.insert handle session }
      | none => { s with tcpSessions := s.tcpSessions.erase handle }
  | .udp handle action =>
    match s.udpSessions.get? handle with
    | none => s
    | some session =>
      match session.step action with
      | some session => { s with udpSessions := s.udpSessions.insert handle session }
      | none => { s with udpSessions := s.udpSessions.erase handle }

variable {s : SmoltcpStack} {a : StackAction} {k : SocketHandle}

theorem tcpSessions_step {session : TcpSession}
    (h : (s.step a).tcpSessions.get? k = some session) :
    s.tcpSessions.get? k = some session ∨ (∃ d, a = .openTcp k d true ∧ s.isFree k = true ∧
        session = .opened s.nextPort d) ∨
      ∃ ac b, a = .tcp k ac ∧ s.tcpSessions.get? k = some b ∧ b.step s.mtu ac = some session := by
  cases a with
  | openTcp _ d c =>
    rw [step] at h
    split_ifs at h with hf
    · cases c with
      | false => exact .inl h
      | true =>
        rcases of_get?_insert h with ⟨rfl, rfl⟩ | h
        · exact .inr (.inl ⟨d, rfl, hf, rfl⟩)
        · exact .inl h
    · exact .inl h
  | openUdp =>
    rw [step] at h
    split_ifs at h
    · exact .inl h
    · exact .inl h
  | tcp _ ac =>
    rw [step] at h
    split at h
    · exact .inl h
    rename_i b hb
    split at h
    · rename_i w ha
      rcases of_get?_insert h with ⟨rfl, rfl⟩ | h
      · exact .inr (.inr ⟨ac, b, rfl, hb, ha⟩)
      · exact .inl h
    · exact .inl (of_get?_erase h).2
  | udp =>
    rw [step] at h
    split at h
    · exact .inl h
    · split at h
      · exact .inl h
      · exact .inl h

theorem udpSessions_step {session : UdpSession}
    (h : (s.step a).udpSessions.get? k = some session) :
    s.udpSessions.get? k = some session ∨
      (a = .openUdp k ∧ s.isFree k = true ∧ session = .opened s.nextPort) ∨
      ∃ ac b, a = .udp k ac ∧ s.udpSessions.get? k = some b ∧ b.step ac = some session := by
  cases a with
  | openTcp _ _ c =>
    rw [step] at h
    split_ifs at h
    · cases c with
      | false | true => exact .inl h
    · exact .inl h
  | openUdp =>
    rw [step] at h
    split_ifs at h with hf
    · rcases of_get?_insert h with ⟨rfl, rfl⟩ | h
      · exact .inr (.inl ⟨rfl, hf, rfl⟩)
      · exact .inl h
    · exact .inl h
  | tcp =>
    rw [step] at h
    split at h
    · exact .inl h
    · split at h
      · exact .inl h
      · exact .inl h
  | udp _ ac =>
    rw [step] at h
    split at h
    · exact .inl h
    rename_i b hb
    split at h
    · rename_i w ha
      rcases of_get?_insert h with ⟨rfl, rfl⟩ | h
      · exact .inr (.inr ⟨ac, b, rfl, hb, ha⟩)
      · exact .inl h
    · exact .inl (of_get?_erase h).2

end SmoltcpStack

end Doradus
