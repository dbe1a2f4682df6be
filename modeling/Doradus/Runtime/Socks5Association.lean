import Doradus.Runtime.InboundUdpSession

/-!
# SOCKS5 UDP associations

The server takes the datagrams that come to its socket one by one. The first one that can be
read decides who the client is; datagrams of other senders are skipped from then on, but only
after they have been read. A datagram that cannot be read ends the session.
-/

namespace Doradus

open FrameReader

namespace Socks5

/-- The message of the error that `str::from_utf8` returns. -/
abbrev Utf8Message := Octets → String

def protocolError (message : String) : Error := ⟨.protocol, message⟩

def parseIp (network : Network) (size : ℕ) (family : String)
    (address : Octets → UInt16 → SocketAddr) (bytes : Octets) : Result (Endpoint × ℕ) :=
  if bytes.length < 1 + size + 2 then
    .error (protocolError ("short SOCKS5 " ++ family ++ " address"))
  else
    let port := (Bytes.toNat ((bytes.drop (1 + size)).take 2)).toUInt16
    .ok (.ip network (address ((bytes.drop 1).take size) port), 1 + size + 2)

def parseDomain (utf8Message : Utf8Message) (network : Network) (bytes : Octets) :
    Result (Endpoint × ℕ) :=
  match bytes[1]? with
  | none => .error (protocolError "short SOCKS5 domain address")
  | some octet => do
    let length := octet.toNat
    if length = 0 ∨ 253 < length ∨ bytes.length < 2 + length + 2 then
      .error (protocolError "invalid SOCKS5 domain address")
    else
      let host := (bytes.drop 2).take length
      match Text.ofUtf8 host with
      | none => .error (protocolError ("SOCKS5 domain: " ++ utf8Message host))
      | some text => do
        let port := (Bytes.toNat ((bytes.drop (2 + length)).take 2)).toUInt16
        let domain ← DomainName.new text
        pure (.domain network domain port, 2 + length + 2)

def parseEndpointBytes (utf8Message : Utf8Message) (bytes : Octets) (network : Network) :
    Result (Endpoint × ℕ) :=
  match bytes[0]? with
  | none => .error (protocolError "SOCKS5 address is empty")
  | some atyp =>
    match atyp.toNat with
    | 1 => parseIp network 4 "IPv4" (fun octets port => .v4 (.ofOctets octets) port) bytes
    | 4 => parseIp network 16 "IPv6" (fun octets port => .v6 (.ofOctets octets) port 0 0) bytes
    | 3 => parseDomain utf8Message network bytes
    | _ => .error (protocolError "unsupported SOCKS5 address type")

/-- `parse_udp_packet`; a fragment is skipped. -/
def parseUdpPacket (utf8Message : Utf8Message) (packet : Octets) :
    Result (Option (Endpoint × Octets)) := do
  if packet.length < 4 ∨ packet[0]? ≠ some 0 ∨ packet[1]? ≠ some 0 then
    .error (protocolError "invalid SOCKS5 UDP header")
  else if packet[2]? ≠ some 0 then pure none
  else
    let (target, offset) ← parseEndpointBytes utf8Message (packet.drop 3) .udp
    pure (some (target, packet.drop (3 + offset)))

/-- What the `recv_from` of a transport puts into a buffer of some size for a datagram, or the
message of its error. -/
abbrev UdpTransport := ℕ → Octets → Except String Octets

/-- A plain socket cuts a datagram that is too long. -/
def UdpTransport.socket : UdpTransport := fun size octets => .ok (octets.take size)

structure UdpServer where
  allowedPeer : Option IpAddr
  client : Option SocketAddr
  bufferSize : ℕ
  deriving DecidableEq

namespace UdpServer

def packetSize (server : UdpServer) : ℕ := max server.bufferSize 512

def request (peer : SocketAddr) (target : Endpoint) (payload : Octets) : InboundUdpRequest where
  id := ⟨peer, target, none⟩
  peer := .ip .udp peer
  target := target
  payload := payload

/-- One round of the loop in `recv`, with nothing for a datagram that is skipped. -/
def receive (transport : UdpTransport) (utf8Message : Utf8Message) (server : UdpServer)
    (peer : SocketAddr) (octets : Octets) : Result (Option InboundUdpRequest) × UdpServer :=
  match transport server.packetSize octets with
  | .error message => (.error ⟨.io, message⟩, server)
  | .ok packet =>
    if server.allowedPeer.any (· ≠ peer.ip) then (.ok none, server)
    else
      match parseUdpPacket utf8Message packet with
      | .error e => (.error e, server)
      | .ok none => (.ok none, server)
      | .ok (some (target, payload)) =>
        match server.client with
        | some expected =>
          if expected ≠ peer then (.ok none, server)
          else (.ok (some (request peer target payload)), server)
        | none => (.ok (some (request peer target payload)), { server with client := some peer })

/-- The transport accepts the datagram, and it can be read unless its sender is not allowed. -/
def accepts (transport : UdpTransport) (utf8Message : Utf8Message) (server : UdpServer)
    (peer : SocketAddr) (octets : Octets) : Bool :=
  match transport server.packetSize octets with
  | .error _ => false
  | .ok packet =>
    server.allowedPeer.any (· ≠ peer.ip) || (parseUdpPacket utf8Message packet).ok?.isSome

variable {transport : UdpTransport} {utf8Message : Utf8Message} {server : UdpServer}
  {client peer : SocketAddr} {octets : Octets}

theorem receive_pinned (t : UdpTransport) (u : Utf8Message)
    (peer : SocketAddr) (o : Octets) (h : server.client = some client) :
    (server.receive t u peer o).2 = server := by
  unfold receive
  split
  · rfl
  split_ifs
  · rfl
  split
  · rfl
  · rfl
  · rw [h]
    dsimp only
    split_ifs <;> rfl

theorem receive_foreign (h : server.client = some client) (hpr : peer ≠ client)
    (ha : server.accepts transport utf8Message peer octets = true) :
    (server.receive transport utf8Message peer octets).1 = .ok none := by
  unfold accepts at ha
  unfold receive
  cases ht : transport server.packetSize octets with
  | error =>
    rw [ht] at ha
    cases ha
  | ok =>
    rw [ht] at ha
    dsimp only at ha ⊢
    split_ifs with hal
    · rfl
    rw [Bool.or_eq_true] at ha
    obtain ⟨p, hp⟩ := Result.exists_eq_ok (ha.resolve_left hal)
    rw [hp, h]
    cases p with
    | none => rfl
    | some =>
      dsimp only
      rw [if_pos hpr.symm]

theorem receive_rejected (ha : server.accepts transport utf8Message peer octets = false) :
    ∃ e, (server.receive transport utf8Message peer octets).1 = .error e := by
  unfold accepts at ha
  unfold receive
  cases ht : transport server.packetSize octets with
  | error => exact ⟨_, rfl⟩
  | ok p =>
    rw [ht] at ha
    dsimp only at ha ⊢
    rw [Bool.or_eq_false_iff] at ha
    rw [ha.1]
    cases hp : parseUdpPacket utf8Message p with
    | error e => exact ⟨e, rfl⟩
    | ok =>
      rw [hp] at ha
      cases ha.2

end UdpServer

/-- A session of the inbound, whose requests come from the server's socket. -/
structure Association where
  server : UdpServer
  session : InboundUdpSession

/-- What wakes the loop of the session: `recv_from` returns a datagram, for which the manager
has an answer, or fails; or one of the other branches. -/
inductive AssociationInput where
  | datagram (peer : SocketAddr) (octets : Octets) (answer : UdpDispatchResult)
  | socketError (message : String)
  | reply (monitor : ConnectionMonitor)
  | sent (result : Result Unit)
  | event (event : InboundUdpSessionEvent) (monitor : ConnectionMonitor)
  | close (event : CloseEvent) (monitor : ConnectionMonitor)
  | drain

namespace Association

def isReceiving (s : Association) : Bool :=
  s.session.ended.isNone && !s.session.replying && !s.session.inputClosed

/-- `codec.recv()` goes on after a datagram that is skipped, and returns otherwise. -/
def passOn (result : Result (Option InboundUdpRequest)) (answer : UdpDispatchResult)
    (session : InboundUdpSession) : InboundUdpSession :=
  match result with
  | .ok none => session
  | .ok (some request) => session.step (.done (some request)) (.recv answer)
  | .error e => session.step (.fail e) (.recv answer)

def takeDatagram (transport : UdpTransport) (utf8Message : Utf8Message) (peer : SocketAddr)
    (octets : Octets) (answer : UdpDispatchResult) (s : Association) : Association :=
  if !s.isReceiving then s
  else
    let (result, server) := s.server.receive transport utf8Message peer octets
    ⟨server, passOn result answer s.session⟩

/-- A wake-up of a branch other than that of `codec.recv()`, which has nothing to return. -/
def other (input : UdpSessionInput) (s : Association) : Association :=
  { s with session := s.session.step (.readExact 1 fun _ => .done none) input }

def step (transport : UdpTransport) (utf8Message : Utf8Message) (s : Association) :
    AssociationInput → Association
  | .datagram peer octets answer => s.takeDatagram transport utf8Message peer octets answer
  | .socketError message =>
    if !s.isReceiving then s
    else { s with session := passOn (.error ⟨.io, message⟩) .dropped s.session }
  | .reply monitor => s.other (.reply monitor)
  | .sent result => s.other (.sent result)
  | .event event monitor => s.other (.event event monitor)
  | .close event monitor => s.other (.close event monitor)
  | .drain => s.other .drain

def fromClient (client : SocketAddr) : AssociationInput → Bool
  | .datagram peer _ _ => peer = client
  | _ => true

/-- A datagram that somebody else sends and that is received is accepted. -/
def Tolerates (transport : UdpTransport) (utf8Message : Utf8Message) (client : SocketAddr)
    (s : Association) : AssociationInput → Prop
  | .datagram peer octets _ => peer = client ∨ s.isReceiving = false ∨
      s.server.accepts transport utf8Message peer octets = true
  | _ => True

instance (transport : UdpTransport) (utf8Message : Utf8Message) (client : SocketAddr)
    (s : Association) : (a : AssociationInput) →
      Decidable (Tolerates transport utf8Message client s a)
  | .datagram peer octets _ => inferInstanceAs (Decidable (peer = client ∨
      s.isReceiving = false ∨ s.server.accepts transport utf8Message peer octets = true))
  | .socketError _ | .reply _ | .sent _ | .event _ _ | .close _ _ | .drain => .isTrue trivial

def observe (s : Association) : List InboundUdpRequest × Option SocketAddr × Option SessionEnd :=
  (s.session.dispatched, s.server.client, s.session.ended)

variable {transport : UdpTransport} {utf8Message : Utf8Message} {client : SocketAddr}
  {s : Association} {a : AssociationInput}

theorem takeDatagram_pinned (t : UdpTransport) (u : Utf8Message) (h : s.server.client = some client)
    (hr : s.isReceiving = true) (peer : SocketAddr) (o : Octets) (a : UdpDispatchResult) :
    s.takeDatagram t u peer o a = { s with
        session := passOn (s.server.receive t u peer o).1 a s.session } := by
  have hp := UdpServer.receive_pinned t u peer o h
  rw [takeDatagram, if_neg (by simp [hr])]
  dsimp only
  rw [hp]

theorem client_step (t : UdpTransport) (u : Utf8Message)
    (h : s.server.client = some client) (a : AssociationInput) :
    (s.step t u a).server.client = some client := by
  cases a with
  | datagram =>
    rw [step]
    cases hr : s.isReceiving with
    | false =>
      rw [takeDatagram, if_pos (by simp [hr])]
      exact h
    | true =>
      rw [takeDatagram_pinned t u h hr]
      exact h
  | socketError =>
    unfold step
    split_ifs <;> exact h
  | reply | sent | event | close | drain => exact h

theorem step_foreign (h : s.server.client = some client)
    (ha : fromClient client a = false) (ht : Tolerates transport utf8Message client s a) :
    s.step transport utf8Message a = s := by
  cases a with
  | datagram peer =>
    have hp : peer ≠ client := of_decide_eq_false ha
    rw [step]
    cases hr : s.isReceiving with
    | false => rw [takeDatagram, if_pos (by simp [hr])]
    | true =>
      have hac := (ht.resolve_left hp).resolve_left (by simp [hr])
      rw [takeDatagram_pinned _ _ h hr, UdpServer.receive_foreign h hp hac]
      rfl
  | socketError | reply | sent | event | close | drain => cases ha

theorem observe_foreign (h : s.server.client = some client)
    (ha : fromClient client a = false) (ht : ¬ Tolerates transport utf8Message client s a) :
    (s.step transport utf8Message a).observe ≠ s.observe := by
  cases a with
  | datagram =>
    rw [Tolerates, not_or, not_or] at ht
    obtain ⟨-, hr, hac⟩ := ht
    have hr := Bool.eq_true_of_not_eq_false hr
    obtain ⟨e, he⟩ := UdpServer.receive_rejected (Bool.eq_false_of_not_eq_true hac)
    rw [step, takeDatagram_pinned _ _ h hr, he]
    simp only [isReceiving, Bool.and_eq_true, Bool.not_eq_true', Option.isNone_iff_eq_none]
      at hr
    obtain ⟨⟨hen, hrp⟩, hi⟩ := hr
    intro heq
    have hends := congrArg (fun o => o.2.2) heq
    simp [observe, passOn, InboundUdpSession.step, InboundUdpSession.select,
      InboundUdpSession.recv, FrameInput.poll, Reading.feed, hen, hrp, hi] at hends
  | socketError | reply | sent | event | close | drain => cases ha

end Association

end Socks5

open Socks5 Association in
/-- Once the client is known, the datagrams of others never show in the requests, the client and
the end of the session if and only if each of them that is received can be read or comes from an
address that is not allowed. -/
theorem socks5Association_unaffected_iff (transport : UdpTransport) (utf8Message : Utf8Message)
    (client : SocketAddr) (s : Association) (hclient : s.server.client = some client)
    (inputs : List AssociationInput) :
    Run.Meets (step transport utf8Message) (Tolerates transport utf8Message client) s inputs ↔
      ∀ n, (Run.run (step transport utf8Message) s (inputs.take n)).observe =
        (Run.run (step transport utf8Message) s
          ((inputs.take n).filter (fromClient client))).observe := by
  refine Run.meets_iff_unaffected (P := fun s => s.server.client = some client)
    (step _ _) (fun s a h => client_step _ _ h a) ?_
    (fun s a h ha ht => step_foreign h ha ht)
    (fun s a h ha ht => observe_foreign h ha ht) inputs s hclient
  intro s a ha
  cases a with
  | datagram => exact Or.inl (of_decide_eq_true ha)
  | socketError | reply | sent | event | close | drain => trivial

def Socks5.exampleClient (port : UInt16) : SocketAddr := .v4 ⟨#v[198, 51, 100, 7]⟩ port

def Socks5.exampleAssociation : Association :=
  ⟨⟨some (exampleClient 40000).ip, some (exampleClient 40000), 2048⟩, .new false []⟩

def Socks5.exampleOctets : Octets := [0, 0, 0, 1, 127, 0, 0, 1, 0, 53, 7]

open Socks5 Association in
theorem socks5Association_unaffected_fragment :
    exampleAssociation.server.client = some (exampleClient 40000) ∧
    Run.Meets (step .socket fun _ => "") (Tolerates .socket (fun _ => "") (exampleClient 40000))
      exampleAssociation [.datagram (exampleClient 40001) [0, 0, 1, 9] .accepted,
        .datagram (exampleClient 40000) exampleOctets .accepted] ∧
    ∀ n, (Run.run (step .socket fun _ => "") exampleAssociation
        ([.datagram (exampleClient 40001) [0, 0, 1, 9] .accepted,
          .datagram (exampleClient 40000) exampleOctets .accepted].take n)).observe =
      (Run.run (step .socket fun _ => "") exampleAssociation
        (([.datagram (exampleClient 40001) [0, 0, 1, 9] .accepted,
          .datagram (exampleClient 40000) exampleOctets .accepted].take n).filter
            (fromClient (exampleClient 40000)))).observe :=
  ⟨rfl, by decide +kernel, (socks5Association_unaffected_iff .socket (fun _ => "")
    (exampleClient 40000) _ rfl _).mp (by decide +kernel)⟩

open Socks5 Association in
/-- An empty datagram from another port of the client's address ends the session, and the
client's next request is not dispatched. -/
theorem socks5Association_ended_by_stranger : (Run.run (step .socket fun _ => "") exampleAssociation
      [.datagram (exampleClient 40001) [] .accepted,
        .datagram (exampleClient 40000) exampleOctets .accepted]).observe =
      ([], some (exampleClient 40000),
        some (.unreadable ⟨.protocol, "invalid SOCKS5 UDP header"⟩)) ∧
    (Run.run (step .socket fun _ => "") exampleAssociation
      [.datagram (exampleClient 40000) exampleOctets .accepted]).observe =
      ([UdpServer.request (exampleClient 40000) (.ip .udp (.v4 .localhost 53)) [7]],
        some (exampleClient 40000), none) := by
  decide +kernel

end Doradus
